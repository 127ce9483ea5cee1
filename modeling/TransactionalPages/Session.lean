import TransactionalPages.Pool.Completion
import TransactionalPages.Pool.Operation
import TransactionalPages.Table.Detached

/-!
# Sessions

A session is a pool together with the tables that were registered in it and the
operations that wait for a lock. Waiting operations are asked again after every
change until none of them gets any further. Transactions are numbered in the
order in which they begin.
-/

namespace TransactionalPages

/-- How a table puts tuples onto its pages. -/
inductive Layout where
  | heap
  | detached
  deriving DecidableEq, Repr, Inhabited

structure Registration where
  name : String
  id : TableId
  layout : Layout
  store : StoreRef
  deriving Repr

namespace Registration

def table (r : Registration) (pageSize : Nat) : Table :=
  match r.layout with
  | .heap => HeapTable.table r.id pageSize r.store
  | .detached => DetachedTable.table r.id pageSize r.store

end Registration

structure Session where
  pool : Pool
  /-- The table that was last registered under each identifier. -/
  tables : Std.TreeMap TableId Registration
  waiting : List (TransactionId × Waiting Answer)
  /-- The number of the transaction that began last. -/
  issued : UInt64

/-- An operation that waited and has ended, with the transaction it belongs to. -/
abbrev Finished := TransactionId × Except PoolError Answer

namespace Session

/-- A session without tables. -/
def create (config : Config) : Except PoolError Session :=
  (Pool.create config .empty #[] #[]).map fun pool => ⟨pool, ∅, [], 0⟩

def register (s : Session) (r : Registration) : Session :=
  let file := r.table (s.pool.store r.store).pageSize
  { s with
    pool := { s.pool with catalog := s.pool.catalog.add r.name r.id file }
    tables := s.tables.insert r.id r }

/-- Registers a table over a new store. -/
def addTable (s : Session) (name : String) (layout : Layout) (medium : Medium) : Session :=
  let (pool, store) := s.pool.addStore (.reliable medium)
  { s with pool := pool }.register ⟨name, medium.table, layout, store⟩

/-- Takes a table out of the catalog; its store stays known. -/
def removeTable (s : Session) (table : TableId) : Session × Option TableId :=
  let (catalog, removed) := s.pool.catalog.remove table
  ({ s with pool := { s.pool with catalog := catalog } }, removed.map Table.id)

def storeOf? (s : Session) (table : TableId) : Option StoreRef :=
  s.tables[table]?.map Registration.store

def begin (s : Session) : Session × TransactionId :=
  ({ s with issued := s.issued + 1 }, ⟨s.issued + 1⟩)

def isWaiting (s : Session) (txn : TransactionId) : Bool := s.waiting.any fun w => w.1 = txn

/-- Begins an operation; it has no answer yet when it waits. -/
def submit (s : Session) (txn : TransactionId) (op : Operation) :
    Session × Option (Except PoolError Answer) :=
  match s.pool.submit txn op with
  | (pool, .done result) => ({ s with pool := pool }, some result)
  | (pool, .waiting request) =>
    ({ s with pool := pool, waiting := s.waiting ++ [(txn, request)] }, none)

/-- Asks for every waiting operation once. Answers with what still waits, with what has ended
and with whether anything got further. -/
def retryEach : List (TransactionId × Waiting Answer) → Pool →
    Pool × List (TransactionId × Waiting Answer) × List Finished × Bool
  | [], pool => (pool, [], [], false)
  | (txn, request) :: rest, pool =>
    match pool.resume txn request with
    | (pool, .done result) =>
      let (pool, waiting, finished, _) := retryEach rest pool
      (pool, waiting, (txn, result) :: finished, true)
    | (pool, .waiting later) =>
      let (pool, waiting, finished, further) := retryEach rest pool
      (pool, (txn, later) :: waiting, finished, further || later.page ≠ request.page)

/-- Asks again in rounds while something gets further, for at most `rounds` rounds. -/
def settleWithin : Nat → Session → Session × List Finished
  | 0, s => (s, [])
  | rounds + 1, s =>
    let (pool, waiting, finished, further) := retryEach s.waiting s.pool
    let s := { s with pool := pool, waiting := waiting }
    if further then
      let (s, later) := settleWithin rounds s
      (s, finished ++ later)
    else (s, finished)

/-- An operation visits a page of its table at most once, so this many rounds are enough. -/
def enoughRounds (s : Session) : Nat :=
  1 + s.waiting.length * (s.pool.stores.foldl (fun n store => n + store.medium.extent) 2)

def settle (s : Session) : Session × List Finished := s.settleWithin s.enoughRounds

/-- Puts a file store back on its file, with no outage; a store in memory stays as it is. -/
def reopenStore (s : Session) (ref : StoreRef) : Session :=
  match (s.pool.store ref).medium with
  | .memory _ => s
  | .file file => { s with pool := s.pool.setStore ref (.reliable (.file file)) }

/-- Starts over with an empty cache and no locks. Page objects that someone still refers to
stay, and every table that was ever registered is registered again. -/
def reopen (s : Session) : Except PoolError Session :=
  match Pool.create s.pool.config .empty s.pool.stores s.pool.objects with
  | .error e => .error e
  | .ok pool =>
    .ok (s.tables.values.foldl (fun s r => (s.reopenStore r.store).register r)
      { s with pool := pool, waiting := [] })

end Session

end TransactionalPages
