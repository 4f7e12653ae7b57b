import Opal.VmTree.Iteration
import Opal.XArray.Refinement
import Opal.XArray.Plan
import Opal.XArray.Failure
import Opal.Buddy.Conservation
import Opal.Fat.Format
import Opal.Scheduler.Timeouts
import Opal.PageTable.Exact
import Opal.Disk.Queue
import Opal.Pipe.Wakeups
import Opal.FileTable.Runs
import Opal.RbTree.Runs
import Opal.Fat.Table
import Opal.Fat.Entries
import Opal.Fat.Names
import Opal.Disk.Cursors
import Opal.Disk.Release
import Opal.Partition.Rescan
import Opal.Libkc.Writer
import Opal.Libkc.Format
import Opal.Libkc.Expansion
import Opal.Libkc.Truncation
import Opal.Libkc.Layout
import Opal.Libkc.Reading
import Opal.Libkc.Conversions
import Opal.Libkc.Conformance
import Opal.Libkc.Whole
import Opal.Libkc.Overflow
import Opal.Libkc.Strtoul
import Opal.Libkc.Inverse
import Opal.Dirent.Read
import Opal.Dirent.Records
import Opal.Dirent.Enumeration
import Opal.Dirent.FileSystems
import Opal.Vfs.Balance
import Opal.Tty.Serial
import Opal.Pata.Driver
import Opal.Pata.Transfers
import Opal.Pata.Progress
import Opal.Pata.Runs
import Opal.Klog.Queue
import Opal.Klog.Records
import Opal.Klog.Overrun
import Opal.Klog.Runs
import Opal.Klog.Output
import Opal.Descriptors.Counting
import Opal.Descriptors.Sections
import Opal.Descriptors.Runs
import Opal.Cpio.Archive
import Opal.Cpio.Paths
import Opal.Cpio.Tree
import Opal.Cpio.Entries
import Opal.Cpio.Records
import Opal.Cpio.Mount
import Opal.Cpio.Order
import Opal.Scheduler.Lives
import Opal.Scheduler.Census
import Opal.Scheduler.Lifetime
import Opal.Scheduler.Holders
import Opal.Library.Ranges
import Opal.Vmap.Operations
import Opal.Vmap.Partition
import Opal.Vmap.Runs
import Opal.Fat.Access
import Opal.Fat.Codec
import Opal.Fat.Scan
import Opal.Coroutine.Operations
import Opal.Coroutine.Readiness
import Opal.Mutex.Exclusion
import Opal.Scheduler.Answers
import Opal.Buddy.Canonical
import Opal.Slab.Operations
import Opal.Slab.Layout
import Opal.Slab.Slots
import Opal.Slab.Format
import Opal.Slab.Kept
import Opal.Slab.Transfer
import Opal.Slab.Runs
import Opal.Sections.Temporary
import Opal.Sections.Metadata
import Opal.Library.Chain
import Opal.Fat.Truncate
import Opal.Fat.Sectors
import Opal.Fat.Bounds
import Opal.Fat.Inode
import Opal.Fat.Walk
import Opal.Fat.Readall
import Opal.Fat.Rounds
import Opal.Fat.Refused
import Opal.Fat.Links
import Opal.Fat.Partial
import Opal.Vfs.Lookup
import Opal.Fb.Copies
import Opal.Dynarray.Runs
import Opal.Argv.Tokens
import Opal.RbTree.Iteration
import Opal.Scheduler.Policy
import Opal.Scheduler.Clients
import Opal.Libkc.Heapsort
import Opal.PageTable.Frames
import Opal.Fb.Bitblt
import Opal.PageTable.Conservation
import Opal.PageTable.Leaves
import Opal.PageTable.Destroy
import Opal.PageTable.Lifetime
import Opal.PageTable.Erasure
import Opal.VmTree.Shape
import Opal.Bootinfo.Containment
import Opal.Fat.Atomicity
import Opal.Partition.Requests
import Opal.Partition.Changes
import Opal.Partition.Linearization
import Opal.Process.Operations
import Opal.Process.Space
import Opal.VmTree.Areas
import Opal.Library.Cuts
import Opal.Process.Frames
import Opal.Process.Sections
import Opal.Process.Images
import Opal.Process.Outcomes
import Opal.Process.MapSection
import Opal.Process.Elf
import Opal.Process.Fork
import Opal.Process.Isolation
import Opal.Process.Runs
import Opal.Fat.Serving
import Opal.Fat.Touches
