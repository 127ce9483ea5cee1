import TransactionalPages.Pool.State

/-!
# Completing transactions

A commit writes every dirty page that the transaction holds to its store, page by
page in order, and then lets go of its locks; a write that fails leaves the rest
undone and all locks in place. An abort reloads the pages that the transaction
holds, drops from the cache those that cannot be reloaded, and lets go of the
locks in either case.
-/

namespace TransactionalPages.Pool

variable {κ : Type} [Foreign κ]

/-- Writes a cached page to its store if it is dirty, and marks it clean. -/
def flushPage (pool : Pool κ) (page : PageId) : Pool κ × Except PoolError Unit :=
  match pool.findTable page.table with
  | .error e => (pool, .error e)
  | .ok table =>
    match pool.cache.peek? page with
    | none => (pool, .ok ())
    | some ref =>
      if (pool.object ref).isDirty then
        match pool.writeStore table.store (pool.object ref) with
        | (pool, .error e) => (pool, .error e)
        | (pool, .ok ()) => (pool.setObject ref (pool.object ref).markClean, .ok ())
      else (pool, .ok ())

/-- Writes pages in the given order up to the first failure. -/
def flushEach : List PageId → Pool κ → Pool κ × Except PoolError Unit
  | [], pool => (pool, .ok ())
  | page :: rest, pool =>
    match pool.flushPage page with
    | (pool, .error e) => (pool, .error e)
    | (pool, .ok ()) => flushEach rest pool

/-- Writes every dirty page that a transaction holds. -/
def flushPages (pool : Pool κ) (txn : TransactionId) : Pool κ × Except PoolError Unit :=
  pool.flushEach (pool.locks.pagesHeldBy txn)

/-- Writes the dirty ones among cached pages, whoever made them dirty. -/
def flushCached : List (PageId × PageRef) → Pool κ → Pool κ × Except PoolError Unit
  | [], pool => (pool, .ok ())
  | (page, ref) :: rest, pool =>
    if (pool.object ref).isDirty then
      match pool.flushPage page with
      | (pool, .error e) => (pool, .error e)
      | (pool, .ok ()) => flushCached rest pool
    else flushCached rest pool

/-- Writes every dirty cached page, also those of transactions that are still running. A cache can
list its pages in any order. -/
def flushAll (pool : Pool κ) (cached : List (PageId × PageRef) := pool.cache.pages.toList) :
    Pool κ × Except PoolError Unit :=
  pool.flushCached cached

def commit (pool : Pool κ) (txn : TransactionId) : Pool κ × Except PoolError Unit :=
  match pool.flushPages txn with
  | (pool, .error e) => (pool, .error e)
  | (pool, .ok ()) => (pool.letGo txn, .ok ())

/-- Whether rolling `txn` back takes a page's changes back: nobody else made them. -/
def ownsChanges (txn : TransactionId) (page : Page) : Bool :=
  match page.dirtier with
  | none => true
  | some owner => owner = txn

/-- Reloads a cached page unless someone else made it dirty, and makes it the first candidate
for eviction. -/
def restorePage (pool : Pool κ) (txn : TransactionId) (page : PageId) :
    Pool κ × Except PoolError Unit :=
  match pool.findTable page.table with
  | .error e => (pool, .error e)
  | .ok table =>
    match pool.cache.peek? page with
    | none => (pool, .ok ())
    | some ref =>
      if ownsChanges txn (pool.object ref) then
        match pool.readStore table.store page with
        | (pool, .error e) => (pool, .error e)
        | (pool, .ok stored) =>
          let pool := pool.setObject ref ((pool.object ref).restoreFrom stored)
          ({ pool with cache := pool.cache.demote page }, .ok ())
      else ({ pool with cache := pool.cache.demote page }, .ok ())

/-- Rolls pages back in the given order and answers with the errors met. A page that could not
be restored leaves the cache; a fault ends the whole. -/
def restoreEach (txn : TransactionId) : List PageId → Pool κ → Pool κ × List PoolError
  | [], pool => (pool, [])
  | page :: rest, pool =>
    match pool.restorePage txn page with
    | (pool, .ok ()) => restoreEach txn rest pool
    | (pool, .error e) =>
      if e.isFault then (pool, [e])
      else
        let (pool, errors) := restoreEach txn rest (pool.discard page)
        (pool, e :: errors)

/-- Rolls a transaction back. The first error is reported after all locks are gone; after a
fault they are not. -/
def abort (pool : Pool κ) (txn : TransactionId) : Pool κ × Except PoolError Unit :=
  let (pool, errors) := pool.restoreEach txn (pool.locks.pagesHeldBy txn)
  match errors.find? PoolError.isFault, errors with
  | some fault, _ => (pool, .error fault)
  | none, [] => (pool.letGo txn, .ok ())
  | none, e :: _ => (pool.letGo txn, .error e)

def complete (pool : Pool κ) (txn : TransactionId) (committing : Bool) :
    Pool κ × Except PoolError Unit :=
  if committing then pool.commit txn else pool.abort txn

/-- Commits through a handle, which aborts what could not be committed. The commit's own error
is reported, unless the abort ends in a fault. -/
def commitHandle (pool : Pool κ) (txn : TransactionId) : Pool κ × Except PoolError Unit :=
  match pool.commit txn with
  | (pool, .ok ()) => (pool, .ok ())
  | (pool, .error e) =>
    match pool.abort txn with
    | (pool, .ok ()) => (pool, .error e)
    | (pool, .error after) => (pool, .error (if after.isFault then after else e))

/-- Drops a handle, which aborts its transaction. Only a fault is heard of. -/
def dropHandle (pool : Pool κ) (txn : TransactionId) : Pool κ × Except PoolError Unit :=
  match pool.abort txn with
  | (pool, .ok ()) => (pool, .ok ())
  | (pool, .error e) => (pool, if e.isFault then .error e else .ok ())

end TransactionalPages.Pool
