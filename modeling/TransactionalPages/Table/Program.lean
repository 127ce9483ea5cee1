import TransactionalPages.Page
import TransactionalPages.Lock
import TransactionalPages.Pool.Error

/-!
# Table programs

A table reaches its pages only through the pool. What it does there is written
down as a program: a tree of calls, each with what follows for every answer. The
one call that can wait is `fetch`, so a transaction that waits is a program
standing before a fetch.
-/

namespace TransactionalPages

/-- A page object in memory. Two references are equal when they are the same object. -/
structure PageRef where
  index : Nat
  deriving DecidableEq, Repr, Inhabited

/-- The store behind a table. -/
structure StoreRef where
  index : Nat
  deriving DecidableEq, Repr, Inhabited

inductive Program (α : Type) where
  | stop (result : Except PoolError α)
  /-- Locks a page and brings it into the cache. -/
  | fetch (page : PageId) (permission : Permission) (next : Except PoolError PageRef → Program α)
  /-- Asks whether the transaction holds a lock on a page. -/
  | holds (page : PageId) (next : Bool → Program α)
  /-- Gives a lock back before the transaction ends. -/
  | release (page : PageId) (next : Program α)
  /-- Drops a page from the cache without writing it. -/
  | discard (page : PageId) (next : Program α)
  | count (store : StoreRef) (next : Except StorageError UInt32 → Program α)
  | allocate (store : StoreRef) (next : Except StorageError PageId → Program α)
  /-- Reads a page object. -/
  | look (ref : PageRef) (next : Page → Program α)
  /-- Gives a page object new bytes and marks it dirty by the transaction. -/
  | edit (ref : PageRef) (data : Bytes) (next : Program α)
  /-- Gives a page object new bytes and does not mark it, as a fault leaves it. -/
  | spoil (ref : PageRef) (data : Bytes) (next : Program α)
  /-- Makes a page object that is neither locked nor cached. -/
  | make (page : Page) (next : PageRef → Program α)

namespace Program

variable {α β : Type}

def map (f : α → β) : Program α → Program β
  | stop result => stop (result.map f)
  | fetch page permission next => fetch page permission fun r => (next r).map f
  | holds page next => holds page fun held => (next held).map f
  | release page next => release page (next.map f)
  | discard page next => discard page (next.map f)
  | count store next => count store fun r => (next r).map f
  | allocate store next => allocate store fun r => (next r).map f
  | look ref next => look ref fun page => (next page).map f
  | edit ref data next => edit ref data (next.map f)
  | spoil ref data next => spoil ref data (next.map f)
  | make page next => make page fun ref => (next ref).map f

def fail (e : PoolError) : Program α := stop (.error e)

def failStorage (e : StorageError) : Program α := stop (.error (.storage e))

/-- Goes on with what succeeded and stops at a storage error. -/
def withResult (r : Except StorageError β) (next : β → Program α) : Program α :=
  match r with
  | .ok b => next b
  | .error e => failStorage e

/-- Fetches a page and stops if that fails. -/
def fetchOrStop (page : PageId) (permission : Permission) (next : PageRef → Program α) :
    Program α :=
  fetch page permission fun
    | .ok ref => next ref
    | .error e => fail e

end Program

/-- A table as a pool sees it: where its pages live, and how tuples come onto them and go. Both
programs answer with the pages that they changed. -/
structure Table where
  id : TableId
  store : StoreRef
  insert : Bytes → Program (List PageRef)
  delete : RecordId → Program (List PageRef)

end TransactionalPages
