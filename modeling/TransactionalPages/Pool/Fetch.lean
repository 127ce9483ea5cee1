import TransactionalPages.Pool.State

/-!
# Fetching pages

A fetch locks a page and then serves it from the cache, loading it from its
store when it is not there. A refused lock is asked for again later; each refusal
renews the edges of the waiting transaction, and a cycle makes it the victim.
-/

namespace TransactionalPages

inductive LockAnswer where
  | granted
  | refused
  | victim
  deriving DecidableEq, Repr

namespace Pool

variable {κ : Type} [Foreign κ]

/-- Asks for a lock. `waited` says whether the same request was refused before. -/
def requestLock (pool : Pool κ) (txn : TransactionId) (page : PageId) (mode : LockMode)
    (waited : Bool) : Pool κ × LockAnswer :=
  match pool.locks.acquire txn page mode with
  | some locks =>
    ({ pool with
        locks := locks
        waits := if waited then pool.waits.clear txn else pool.waits }, .granted)
  | none =>
    let (waits, cycle) := pool.waits.block txn (pool.locks.holderList page)
    ({ pool with waits := waits }, if cycle then .victim else .refused)

/-- Drops the first clean page from the cache. Dirty pages are never written out here. -/
def evictOne (pool : Pool κ) : Pool κ × Except PoolError Unit :=
  match pool.cache.evict fun ref => (pool.object ref).isDirty with
  | (cache, some _) => ({ pool with cache := cache }, .ok ())
  | (cache, none) =>
    ({ pool with cache := cache }, .error (.evictionExhausted pool.cache.capacity))

/-- Makes room in the cache if it is full. -/
def makeRoom (pool : Pool κ) : Pool κ × Except PoolError Unit :=
  if pool.cache.isFull then pool.evictOne else (pool, .ok ())

/-- Files a new page object made from what a store returned. -/
def fileLoaded (pool : Pool κ) (page : PageId) (loaded : Page) : Pool κ × PageRef :=
  let (pool, ref) := pool.addObject loaded
  ({ pool with cache := pool.cache.insert page ref }, ref)

/-- Reads a page that is not cached and brings it into the cache. -/
def loadMissing (pool : Pool κ) (page : PageId) : Pool κ × Except PoolError PageRef :=
  match pool.findTable page.table with
  | .error e => (pool, .error e)
  | .ok table =>
    match pool.readStore table.store page with
    | (pool, .error e) => (pool, .error e)
    | (pool, .ok loaded) =>
      if loaded.size ≠ pool.config.pageSize then
        (pool, .error (.storage (.pageSizeMismatch pool.config.pageSize loaded.size)))
      else match pool.makeRoom with
        | (pool, .error e) => (pool, .error e)
        | (pool, .ok ()) =>
          let (pool, ref) := pool.fileLoaded page loaded
          (pool, .ok ref)

/-- Serves a page that the caller has locked. -/
def load (pool : Pool κ) (page : PageId) : Pool κ × Except PoolError PageRef :=
  match pool.cache.get page with
  | (cache, some ref) => ({ pool with cache := cache }, .ok ref)
  | (_, none) => pool.loadMissing page

end Pool

/-- A request for a page that was refused, with what follows once it is answered. -/
structure Waiting (α : Type) where
  page : PageId
  permission : Permission
  next : Except PoolError PageRef → Program α

inductive Progress (α : Type) where
  | waiting (request : Waiting α)
  | done (result : Except PoolError α)

namespace Pool

variable {α κ : Type} [Foreign κ]

/-- Runs a program for a transaction until it ends or a lock is refused. -/
def run (txn : TransactionId) : Program α → Pool κ → Pool κ × Progress α
  | .stop result, pool => (pool, .done result)
  | .fetch page permission next, pool =>
    match pool.requestLock txn page permission.mode false with
    | (pool, .granted) =>
      let (pool, loaded) := pool.load page
      run txn (next loaded) pool
    | (pool, .refused) => (pool, .waiting ⟨page, permission, next⟩)
    | (pool, .victim) => run txn (next (.error (.deadlock txn page))) pool
  | .holds page next, pool => run txn (next (pool.holdsLock txn page)) pool
  | .release page next, pool => run txn next (pool.releaseLock txn page)
  | .discard page next, pool => run txn next (pool.discard page)
  | .count store next, pool =>
    let (pool, counted) := pool.countPages store
    run txn (next counted) pool
  | .allocate store next, pool =>
    let (pool, allocated) := pool.allocatePage store
    run txn (next allocated) pool
  | .look ref next, pool => run txn (next (pool.object ref)) pool
  | .edit ref data next, pool =>
    run txn next (pool.setObject ref { pool.object ref with data := data, dirtier := some txn })
  | .spoil ref data next, pool =>
    run txn next (pool.setObject ref { pool.object ref with data := data })
  | .make page next, pool =>
    let (pool, ref) := pool.addObject page
    run txn (next ref) pool

/-- Asks again for a page that was refused. -/
def retry (txn : TransactionId) (request : Waiting α) (pool : Pool κ) : Pool κ × Progress α :=
  match pool.requestLock txn request.page request.permission.mode true with
  | (pool, .granted) =>
    let (pool, loaded) := pool.load request.page
    pool.run txn (request.next loaded)
  | (pool, .refused) => (pool, .waiting request)
  | (pool, .victim) => pool.run txn (request.next (.error (.deadlock txn request.page)))

end Pool

end TransactionalPages
