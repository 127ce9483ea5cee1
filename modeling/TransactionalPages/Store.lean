import TransactionalPages.Store.Memory
import TransactionalPages.Store.File
import TransactionalPages.Store.Outage

/-!
# Page stores

A store is a medium that keeps the pages of one table, with an outage for each
kind of call. A call that the outage stops leaves the medium alone. Pages are kept
in memory or in a file; `Foreign` says what a medium of any other kind has to do.
-/

namespace TransactionalPages

/-- What a pool asks of a medium. Reading and counting change nothing on it; a refused write may have
gone halfway. -/
class Foreign (κ : Type) where
  table : κ → TableId
  pageSize : κ → Nat
  numPages : κ → Except StorageError UInt32
  read : κ → PageId → Except StorageError Page
  write : κ → Page → κ × Except StorageError Unit
  allocate : κ → κ × Except StorageError PageId

/-- There is no medium of another kind. -/
@[default_instance]
instance : Foreign Empty := ⟨nofun, nofun, nofun, nofun, nofun, nofun⟩

inductive Medium (κ : Type := Empty) where
  | memory (store : MemoryStore)
  | file (store : FileStore)
  | foreign (store : κ)
  deriving DecidableEq, Repr

namespace Medium

variable {κ : Type} [Foreign κ]

def table : Medium κ → TableId
  | memory s => s.table
  | file s => s.table
  | foreign s => Foreign.table s

def pageSize : Medium κ → Nat
  | memory s => s.pageSize
  | file s => s.pageSize
  | foreign s => Foreign.pageSize s

def numPages : Medium κ → Except StorageError UInt32
  | memory s => .ok s.numPages
  | file s => s.numPages
  | foreign s => Foreign.numPages s

def read : Medium κ → PageId → Except StorageError Page
  | memory s, page => s.read page
  | file s, page => s.read page
  | foreign s, page => Foreign.read s page

def write : Medium κ → Page → Except StorageError (Medium κ)
  | memory s, page => (s.write page).map memory
  | file s, page => (s.write page).map file
  | foreign s, page => (Foreign.write s page).2.map fun _ => foreign (Foreign.write s page).1

/-- What is left of a medium that has refused a write. -/
def refused : Medium κ → Page → Medium κ
  | foreign s, page => foreign (Foreign.write s page).1
  | m, _ => m

def allocate : Medium κ → Medium κ × Except StorageError PageId
  | memory s => (memory s.allocate.1, s.allocate.2)
  | file s => (file s.allocate.1, s.allocate.2)
  | foreign s => (foreign (Foreign.allocate s).1, (Foreign.allocate s).2)

/-- The whole pages on a medium. -/
def extent : Medium κ → Nat
  | memory s => s.blocks.size
  | file s => s.file.length / s.pageSize
  | foreign s => match Foreign.numPages s with
    | .ok count => count.toNat
    | .error _ => 0

end Medium

structure Store (κ : Type := Empty) where
  medium : Medium κ
  reads : Outage
  writes : Outage
  allocations : Outage
  counts : Outage

namespace Store

variable {κ : Type} [Foreign κ]

/-- A store all of whose calls get through. -/
def reliable (medium : Medium κ) : Store κ := ⟨medium, .never, .never, .never, .never⟩

instance : Inhabited (Store κ) := ⟨reliable (.memory (.empty ⟨0⟩ 0))⟩

def table (s : Store κ) : TableId := s.medium.table

def pageSize (s : Store κ) : Nat := s.medium.pageSize

def injected {α : Type} : Except StorageError α := .error (.io .injected)

def read (s : Store κ) (page : PageId) : Store κ × Except StorageError Page :=
  ({ s with reads := s.reads.next },
    if s.reads.passes then s.medium.read page else injected)

def numPages (s : Store κ) : Store κ × Except StorageError UInt32 :=
  ({ s with counts := s.counts.next },
    if s.counts.passes then s.medium.numPages else injected)

def write (s : Store κ) (page : Page) : Store κ × Except StorageError Unit :=
  let tried := { s with writes := s.writes.next }
  if s.writes.passes then
    match s.medium.write page with
    | .ok medium => ({ tried with medium := medium }, .ok ())
    | .error e => ({ tried with medium := s.medium.refused page }, .error e)
  else (tried, injected)

def allocate (s : Store κ) : Store κ × Except StorageError PageId :=
  let tried := { s with allocations := s.allocations.next }
  if s.allocations.passes then
    let (medium, result) := s.medium.allocate
    ({ tried with medium := medium }, result)
  else (tried, injected)

end Store

end TransactionalPages
