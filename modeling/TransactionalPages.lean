import TransactionalPages.Fault
import TransactionalPages.Identifier
import TransactionalPages.Bytes
import TransactionalPages.Config
import TransactionalPages.Page
import TransactionalPages.SlottedPage
import TransactionalPages.Store
import TransactionalPages.Lock
import TransactionalPages.WaitFor
import TransactionalPages.Cache
import TransactionalPages.Catalog
import TransactionalPages.Table.Heap
import TransactionalPages.Table.Detached
import TransactionalPages.Pool.Operation
import TransactionalPages.Pool.Completion
import TransactionalPages.Session
import TransactionalPages.Workload
import TransactionalPages.Main
import TransactionalPages.Proofs.Lookup
import TransactionalPages.Proofs.Catalog
import TransactionalPages.Proofs.LockTable
import TransactionalPages.Proofs.Peeling
import TransactionalPages.Proofs.WaitFor
import TransactionalPages.Proofs.Victim
import TransactionalPages.Proofs.Frame
import TransactionalPages.Proofs.Contention
import TransactionalPages.Proofs.Bytes
import TransactionalPages.Proofs.SlottedPage
import TransactionalPages.Proofs.SlotList
import TransactionalPages.Proofs.ByteFile
import TransactionalPages.Proofs.Cache
import TransactionalPages.Proofs.Medium
import TransactionalPages.Proofs.BlockVector
import TransactionalPages.Proofs.FileGrowth
import TransactionalPages.Proofs.Serving
import TransactionalPages.Proofs.Coherence
import TransactionalPages.Proofs.Completion
import TransactionalPages.Proofs.Orderly
import TransactionalPages.Proofs.HeapTable
import TransactionalPages.Proofs.Operation
import TransactionalPages.Proofs.Interleaving
import TransactionalPages.Proofs.History
import TransactionalPages.Proofs.Dependable
import TransactionalPages.Proofs.Turn
import TransactionalPages.Proofs.Contents
import TransactionalPages.Proofs.Access
import TransactionalPages.Proofs.WriteBack
import TransactionalPages.Proofs.Alone
import TransactionalPages.Proofs.Serial
import TransactionalPages.Proofs.Course
import TransactionalPages.Proofs.Formed
import TransactionalPages.Proofs.Rollback
import TransactionalPages.Proofs.Handling
import TransactionalPages.Proofs.Securing
import TransactionalPages.Proofs.Isolation
import TransactionalPages.Proofs.Forcing
import TransactionalPages.Proofs.Room
import TransactionalPages.Proofs.Admission
import TransactionalPages.Proofs.LockRelation
import TransactionalPages.Proofs.Retention
import TransactionalPages.Proofs.NoSteal
import TransactionalPages.Proofs.Backing
import TransactionalPages.Proofs.Fading
import TransactionalPages.Proofs.Ownership
import TransactionalPages.Proofs.Residue
import TransactionalPages.Proofs.PageSize
import TransactionalPages.Proofs.Visible
import TransactionalPages.Proofs.FirstFit
import TransactionalPages.Proofs.Modest
import TransactionalPages.Proofs.FailedMutation
import TransactionalPages.Proofs.CycleCheck
import TransactionalPages.Proofs.DamagedPage
import TransactionalPages.Proofs.FailedFetch
import TransactionalPages.Proofs.Blocks
import TransactionalPages.Proofs.PartialCommit
import TransactionalPages.Proofs.RepeatedCommit
import TransactionalPages.Proofs.FreshIds
import TransactionalPages.Proofs.Recency
import TransactionalPages.Proofs.RowCodec
import TransactionalPages.Proofs.ScanAgreement
import TransactionalPages.Proofs.Staleness
import TransactionalPages.Proofs.ForcedPages
import TransactionalPages.Proofs.Dealings
