import TransactionalPages.Page
import TransactionalPages.Store.Error

/-!
# Page stores in memory

A store in memory is a sequence of blocks. Writing past its end fills the gap
with blocks of zeros; a request that is refused changes nothing. Pages are
counted in 32 bits.
-/

namespace TransactionalPages

structure MemoryStore where
  table : TableId
  pageSize : Nat
  blocks : Array Bytes
  deriving DecidableEq, Repr

namespace MemoryStore

/-- A store without pages. -/
def empty (table : TableId) (pageSize : Nat) : MemoryStore := ⟨table, pageSize, #[]⟩

/-- A store of blank pages. There is one to copy from, also when none is asked for. -/
def withPages (table : TableId) (pageSize count : Nat) : Except StorageError MemoryStore :=
  if Limit.block < pageSize then .error (.fault .sizeOutOfRange)
  else .ok ⟨table, pageSize, Array.replicate count (Bytes.zeros pageSize)⟩

def numPages (s : MemoryStore) : UInt32 := UInt32.ofNat s.blocks.size

def read (s : MemoryStore) (page : PageId) : Except StorageError Page :=
  if page.table ≠ s.table then .error (.tableMismatch page s.table)
  else match s.blocks[page.index.toNat]? with
    | some data => .ok (.clean page data)
    | none => .error (.pageOutOfRange page s.numPages)

/-- Makes the store at least `count` blocks long. -/
def grow (s : MemoryStore) (count : Nat) : MemoryStore :=
  { s with
    blocks := s.blocks ++ Array.replicate (count - s.blocks.size) (Bytes.zeros s.pageSize) }

def write (s : MemoryStore) (page : Page) : Except StorageError MemoryStore :=
  if page.id.table ≠ s.table then .error (.tableMismatch page.id s.table)
  else if page.size ≠ s.pageSize then .error (.pageSizeMismatch s.pageSize page.size)
  else
    let s := s.grow (page.id.index.toNat + 1)
    .ok { s with blocks := s.blocks.setIfInBounds page.id.index.toNat page.data }

/-- Appends a block of zeros and answers with its page. The last page has no number if the count
of pages is back at zero with it. -/
def allocate (s : MemoryStore) : MemoryStore × Except StorageError PageId :=
  if Limit.block < s.pageSize then (s, .error (.fault .sizeOutOfRange))
  else
    let grown := s.grow (s.blocks.size + 1)
    if grown.numPages = 0 then (grown, .error (.fault .countExhausted))
    else (grown, .ok ⟨s.table, grown.numPages - 1⟩)

end MemoryStore

end TransactionalPages
