import TransactionalPages.Page
import TransactionalPages.Store.ByteFile

/-!
# Page stores in a file

Page `n` of a file store lives at byte `n * pageSize`. The length of the file need
not be a multiple of the page size, so a store can begin with a torn last page.
Pages are counted in 32 bits.
-/

namespace TransactionalPages

structure FileStore where
  table : TableId
  pageSize : Nat
  file : ByteFile
  deriving DecidableEq, Repr

namespace FileStore

/-- A store on an emptied file. -/
def create (table : TableId) (pageSize : Nat) : FileStore := ⟨table, pageSize, .empty⟩

/-- A store on a file as it is, if there is one. -/
def openOn (table : TableId) (pageSize : Nat) : Option ByteFile → Except StorageError FileStore
  | none => .error (.io .fileMissing)
  | some file => .ok ⟨table, pageSize, file⟩

def offset (s : FileStore) (index : UInt32) : Nat := index.toNat * s.pageSize

/-- The whole pages in the file; a torn one at its end does not count. -/
def numPages (s : FileStore) : Except StorageError UInt32 :=
  if s.pageSize = 0 then .error (.fault .emptyPageSize)
  else .ok (UInt32.ofNat (s.file.length / s.pageSize))

def read (s : FileStore) (page : PageId) : Except StorageError Page :=
  if page.table ≠ s.table then .error (.tableMismatch page s.table)
  else match s.numPages with
    | .error e => .error e
    | .ok count =>
      if count ≤ page.index then .error (.pageOutOfRange page count)
      else .ok (.clean page (s.file.read (s.offset page.index) s.pageSize))

def write (s : FileStore) (page : Page) : Except StorageError FileStore :=
  if page.id.table ≠ s.table then .error (.tableMismatch page.id s.table)
  else if page.size ≠ s.pageSize then .error (.pageSizeMismatch s.pageSize page.size)
  else match s.file.reach (s.offset page.id.index + page.size) with
    | .error e => .error e
    | .ok file => .ok { s with file := file.write (s.offset page.id.index) page.data }

/-- The largest number of pages that can be counted. -/
def maxPages : UInt32 := 4294967295

/-- Sets the file's length to one more page than it has and answers with that page. The count is
raised with a check, as in a build with overflow checks. Without them the count of a full store
would go round to zero, and the file would be cut to nothing. -/
def allocate (s : FileStore) : FileStore × Except StorageError PageId :=
  match s.numPages with
  | .error e => (s, .error e)
  | .ok count =>
    if count = maxPages then (s, .error (.fault .countExhausted))
    else match s.file.resize (s.offset (count + 1)) with
      | .error e => (s, .error e)
      | .ok file => ({ s with file := file }, .ok ⟨s.table, count⟩)

end FileStore

end TransactionalPages
