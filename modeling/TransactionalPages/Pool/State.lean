import TransactionalPages.Cache
import TransactionalPages.Catalog
import TransactionalPages.Store
import TransactionalPages.Table.Program
import TransactionalPages.WaitFor

/-!
# Pools

A pool couples a lock table, a wait-for graph and a cache of pages over the
stores of the tables in its catalog. Page objects are kept apart from the cache:
an object that has left the cache can still be read and written by whoever has a
reference to it.
-/

namespace TransactionalPages

structure Pool (κ : Type := Empty) where
  config : Config
  catalog : Catalog Table
  stores : Array (Store κ)
  objects : Array Page
  locks : LockTable
  waits : WaitForGraph
  cache : Cache PageRef

namespace Pool

variable {κ : Type} [Foreign κ]

/-- A pool with nothing locked or cached, if the configuration is valid and within range. -/
def create (config : Config) (catalog : Catalog Table) (stores : Array (Store κ))
    (objects : Array Page) : Except PoolError (Pool κ) :=
  match config.validate with
  | .error e => .error (.config e)
  | .ok () =>
    match Cache.create config.capacity with
    | .error fault => .error (.fault fault)
    | .ok cache => .ok ⟨config, catalog, stores, objects, .empty, .empty, cache⟩

def store (pool : Pool κ) (ref : StoreRef) : Store κ := pool.stores.getD ref.index default

def setStore (pool : Pool κ) (ref : StoreRef) (store : Store κ) : Pool κ :=
  { pool with stores := pool.stores.setIfInBounds ref.index store }

def addStore (pool : Pool κ) (store : Store κ) : Pool κ × StoreRef :=
  let ref := ⟨pool.stores.size⟩
  ({ pool with stores := pool.stores.push store }, ref)

def object (pool : Pool κ) (ref : PageRef) : Page := pool.objects.getD ref.index default

def setObject (pool : Pool κ) (ref : PageRef) (page : Page) : Pool κ :=
  { pool with objects := pool.objects.setIfInBounds ref.index page }

def addObject (pool : Pool κ) (page : Page) : Pool κ × PageRef :=
  let ref := ⟨pool.objects.size⟩
  ({ pool with objects := pool.objects.push page }, ref)

/-- The table that pages of `table` are read from and written to. -/
def findTable (pool : Pool κ) (table : TableId) : Except PoolError Table :=
  match pool.catalog.file? table with
  | some file => .ok file
  | none => .error (.unknownTable table)

def readStore (pool : Pool κ) (ref : StoreRef) (page : PageId) : Pool κ × Except PoolError Page :=
  let (store, result) := (pool.store ref).read page
  (pool.setStore ref store, result.mapError .storage)

def writeStore (pool : Pool κ) (ref : StoreRef) (page : Page) : Pool κ × Except PoolError Unit :=
  let (store, result) := (pool.store ref).write page
  (pool.setStore ref store, result.mapError .storage)

def countPages (pool : Pool κ) (ref : StoreRef) : Pool κ × Except StorageError UInt32 :=
  let (store, result) := (pool.store ref).numPages
  (pool.setStore ref store, result)

def allocatePage (pool : Pool κ) (ref : StoreRef) : Pool κ × Except StorageError PageId :=
  let (store, result) := (pool.store ref).allocate
  (pool.setStore ref store, result)

def holdsLock (pool : Pool κ) (txn : TransactionId) (page : PageId) : Bool :=
  pool.locks.holds txn page

def releaseLock (pool : Pool κ) (txn : TransactionId) (page : PageId) : Pool κ :=
  { pool with locks := pool.locks.release txn page }

/-- Drops a page from the cache without writing it. -/
def discard (pool : Pool κ) (page : PageId) : Pool κ :=
  { pool with cache := (pool.cache.remove page).1 }

def isCached (pool : Pool κ) (page : PageId) : Bool := pool.cache.contains page

/-- Gives back every lock of a transaction and drops the edges that lead away from it. -/
def letGo (pool : Pool κ) (txn : TransactionId) : Pool κ :=
  { pool with locks := pool.locks.releaseAll txn, waits := pool.waits.clear txn }

end Pool

end TransactionalPages
