import TransactionalPages.Table.Program
import TransactionalPages.SlottedPage

/-!
# Heap tables

A heap table is an unordered collection of slotted pages. A tuple goes onto the
first page that has room for it, and onto a new page if none has. A full page
that the transaction did not hold before is given back at once, since nothing
depends on it.
-/

namespace TransactionalPages.HeapTable

/-- What comes of putting a tuple onto a page. -/
inductive Placement where
  | full
  | placed (data : Bytes)
  | refused (cause : StorageError)
  /-- A fault was met when part of the page was written. -/
  | broken (data : Bytes) (cause : Fault)
  deriving DecidableEq, Repr

def place (data tuple : Bytes) : Placement :=
  match SlottedPage.hasRoomFor? data tuple.size with
  | .error e => .refused e
  | .ok false => .full
  | .ok true =>
    match SlottedPage.insert data tuple with
    | (new, .ok _) => .placed new
    | (new, .error (.fault fault)) => .broken new fault
    | (_, .error e) => .refused e

/-- Puts a tuple onto a page, or goes on if the page is full. -/
def placeOn (ref : PageRef) (tuple : Bytes) (ifFull : Bytes → Program (List PageRef)) :
    Program (List PageRef) :=
  .look ref fun seen =>
  match place seen.data tuple with
  | .full => ifFull seen.data
  | .placed data => .edit ref data (.stop (.ok [ref]))
  | .refused e => .failStorage e
  | .broken data fault => .spoil ref data (.failStorage (.fault fault))

/-- Puts a tuple onto a page that was just allocated. -/
def insertNew (tuple : Bytes) (page : PageId) : Program (List PageRef) :=
  .fetchOrStop page .readWrite fun ref =>
  placeOn ref tuple fun data =>
  .failStorage (.pageFull tuple.size (SlottedPage.freeSpace data))

/-- Tries the `left` pages from `index` on, and then a new one. -/
def insertFrom (table : TableId) (store : StoreRef) (tuple : Bytes) :
    (left : Nat) → (index : UInt32) → Program (List PageRef)
  | 0, _ => .allocate store fun allocated => .withResult allocated (insertNew tuple)
  | left + 1, index =>
    .holds ⟨table, index⟩ fun held =>
    .fetchOrStop ⟨table, index⟩ .readWrite fun ref =>
    placeOn ref tuple fun _ =>
    if held then insertFrom table store tuple left (index + 1)
    else .release ⟨table, index⟩ (insertFrom table store tuple left (index + 1))

def insert (table : TableId) (pageSize : Nat) (store : StoreRef) (tuple : Bytes) :
    Program (List PageRef) :=
  if SlottedPage.maxTupleSize pageSize < tuple.size then
    .failStorage (.tupleTooLarge tuple.size pageSize)
  else
    .count store fun counted =>
    .withResult counted fun count => insertFrom table store tuple count.toNat 0

/-- Goes on if a page belongs to the table. -/
def onOwnPage {α : Type} (table : TableId) (page : PageId) (next : Program α) : Program α :=
  if page.table = table then next else .failStorage (.tableMismatch page table)

def delete (table : TableId) (record : RecordId) : Program (List PageRef) :=
  onOwnPage table record.page <|
  .fetchOrStop record.page .readWrite fun ref =>
  .look ref fun seen =>
  .withResult (SlottedPage.delete seen.data record.slot) fun data =>
  .edit ref data (.stop (.ok [ref]))

def get (table : TableId) (record : RecordId) : Program Bytes :=
  onOwnPage table record.page <|
  .fetchOrStop record.page .readOnly fun ref =>
  .look ref fun seen =>
  .withResult (SlottedPage.get seen.data record.slot) fun tuple => .stop (.ok tuple)

abbrev Rows := List (RecordId × Bytes)

/-- Adds the live tuples of the `left` pages from `index` on to `found`. -/
def scanFrom (table : TableId) : (left : Nat) → (index : UInt32) → (found : Rows) → Program Rows
  | 0, _, found => .stop (.ok found)
  | left + 1, index, found =>
    .fetchOrStop ⟨table, index⟩ .readOnly fun ref =>
    .look ref fun seen =>
    .withResult (SlottedPage.liveTuples? seen.data) fun tuples =>
    scanFrom table left (index + 1)
      (found ++ tuples.map fun t => (⟨⟨table, index⟩, t.1⟩, t.2))

def scan (table : TableId) (store : StoreRef) : Program Rows :=
  .count store fun counted =>
  .withResult counted fun count => scanFrom table count.toNat 0 []

/-- The heap table over a store with pages of the given size. -/
def table (id : TableId) (pageSize : Nat) (store : StoreRef) : Table :=
  ⟨id, store, insert id pageSize store, delete id⟩

end TransactionalPages.HeapTable
