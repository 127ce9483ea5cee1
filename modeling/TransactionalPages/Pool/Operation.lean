import TransactionalPages.Pool.Fetch
import TransactionalPages.Table.Heap

/-!
# Operations of a transaction

An operation is a program with an answer. When the answer is a list of changed
pages, the pool marks each of them dirty by the transaction and files it in the
cache, in place of any other copy.
-/

namespace TransactionalPages

/-- A change to one table. -/
inductive Mutation where
  | insert (tuple : Bytes)
  | delete (record : RecordId)
  deriving DecidableEq, Repr

inductive Operation where
  | fetch (page : PageId) (permission : Permission)
  | mutate (table : TableId) (mutation : Mutation)
  /-- Reads one tuple of the heap table of that name. -/
  | get (table : TableId) (record : RecordId)
  /-- Reads all tuples of the heap table over a store. -/
  | scan (table : TableId) (store : StoreRef)
  deriving DecidableEq, Repr

inductive Answer where
  | page (ref : PageRef)
  | changed (refs : List PageRef)
  | tuple (data : Bytes)
  | rows (rows : HeapTable.Rows)
  deriving DecidableEq, Repr

namespace Table

def program (table : Table) : Mutation → Program (List PageRef)
  | .insert tuple => table.insert tuple
  | .delete record => table.delete record

end Table

namespace Pool

variable {κ : Type} [Foreign κ]

/-- What an operation does in the pool as it is now. A mutation keeps to the table that it finds
registered when it begins. -/
def programOf (pool : Pool κ) : Operation → Program Answer
  | .fetch page permission => (Program.fetch page permission .stop).map .page
  | .mutate table mutation =>
    match pool.findTable table with
    | .error e => .fail e
    | .ok file => (file.program mutation).map .changed
  | .get table record => (HeapTable.get table record).map .tuple
  | .scan table store => (HeapTable.scan table store).map .rows

/-- Files a changed page in the cache. -/
def install (pool : Pool κ) (page : PageId) (ref : PageRef) : Pool κ × Except PoolError Unit :=
  match pool.cache.peek? page with
  | some cached =>
    if cached = ref then ({ pool with cache := (pool.cache.get page).1 }, .ok ())
    else ({ pool with cache := pool.cache.insert page ref }, .ok ())
  | none =>
    match pool.makeRoom with
    | (pool, .error e) => (pool, .error e)
    | (pool, .ok ()) => ({ pool with cache := pool.cache.insert page ref }, .ok ())

/-- Marks changed pages dirty and files them, up to the first for which there is no room. -/
def adopt (txn : TransactionId) : List PageRef → Pool κ → Pool κ × Except PoolError Unit
  | [], pool => (pool, .ok ())
  | ref :: rest, pool =>
    let pool := pool.setObject ref ((pool.object ref).markDirty txn)
    match pool.install (pool.object ref).id ref with
    | (pool, .error e) => (pool, .error e)
    | (pool, .ok ()) => adopt txn rest pool

/-- Adopts the pages that a finished operation changed. -/
def finish (txn : TransactionId) : Pool κ × Progress Answer → Pool κ × Progress Answer
  | (pool, .done (.ok (.changed refs))) =>
    match pool.adopt txn refs with
    | (pool, .ok ()) => (pool, .done (.ok (.changed refs)))
    | (pool, .error e) => (pool, .done (.error e))
  | other => other

/-- Begins an operation. -/
def submit (pool : Pool κ) (txn : TransactionId) (op : Operation) : Pool κ × Progress Answer :=
  finish txn (pool.run txn (pool.programOf op))

/-- Takes up an operation where it waits. -/
def resume (pool : Pool κ) (txn : TransactionId) (request : Waiting Answer) :
    Pool κ × Progress Answer :=
  finish txn (pool.retry txn request)

end Pool

end TransactionalPages
