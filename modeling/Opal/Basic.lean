import Mathlib.Algebra.Group.Nat.Defs
import Mathlib.Data.Stream.Init

/-!
# Machine words and allocation outcomes

Addresses and sizes of the kernel are 64-bit words, modelled as natural
numbers with explicit bounds.  Every model that calls an allocator takes the
outcomes of its calls from an `AllocOracle`, so that a theorem about all
oracles is a theorem about all patterns of allocation failures.
-/

namespace Opal

/-- Number of values of a 64-bit word. -/
def wordSize : Nat := 2 ^ 64

/-- `UINTPTR_MAX`, `UINT64_MAX`, `PHYS_ADDR_MAX`. -/
def uintptrMax : Nat := 2 ^ 64 - 1

/-- The outcome of every coming allocation; the head belongs to the next call. -/
abbrev AllocOracle := Stream' Bool

namespace AllocOracle

/-- An oracle under which no allocation fails. -/
def always : AllocOracle := Stream'.const true

def Succeeds (mem : AllocOracle) : Prop := ∀ n, mem.get n = true

theorem Succeeds.head {mem : AllocOracle} (succeeds : mem.Succeeds) : mem.head = true :=
  succeeds 0

theorem Succeeds.tail {mem : AllocOracle} (succeeds : mem.Succeeds) :
    Succeeds mem.tail := fun n => succeeds (n + 1)

theorem always_succeeds : always.Succeeds := fun _ => rfl

end AllocOracle

end Opal
