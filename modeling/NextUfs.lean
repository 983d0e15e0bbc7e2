import NextUfs.Core.Accounting
import NextUfs.Core.StoreFailure
import NextUfs.Core.RunSearch
import NextUfs.Core.Holes
import NextUfs.Mutate.Rollback
import NextUfs.Mutate.Confinement
import NextUfs.Mutate.Ancestors
import NextUfs.Mutate.SymlinkTarget
import NextUfs.Mutate.InsertBounds
import NextUfs.Mutate.DirInsertion
import NextUfs.Mutate.DirRemoval
import NextUfs.Mutate.MutationRuns
import NextUfs.Fsck.Pass5Repair
import NextUfs.Fsck.Pass1Frees
import NextUfs.Fsck.Address
import NextUfs.Fsck.Coherence
import NextUfs.Fsck.DamageConfined
import NextUfs.Fsck.Pass2Chunk
import NextUfs.Fsck.ExpandDirFails
import NextUfs.Fsck.PhaseClears
import NextUfs.Format.FsInit
import NextUfs.Core.InodeBits
import NextUfs.Core.Resolve
import NextUfs.Mutate.LookupRemove
import NextUfs.Bounds.GeometryNeeded
import NextUfs.Label.LabelRoundTrip
import NextUfs.Vdi.CopyOnWrite
import NextUfs.Vdi.Interrupt
import NextUfs.Vdi.ParentChain
import NextUfs.Resize.Agree
import NextUfs.Format.GroupCounts
import NextUfs.Format.FsInitSpec
import NextUfs.Format.FreshDisk
import NextUfs.Format.FreshLinked
