import TransactionalPages.Pool.Completion
import TransactionalPages.Pool.Operation

/-!
# What moving pages leaves alone

A pool decides who may touch a page by its locks and wait-for edges, and moves
pages between its stores and its cache by other means. Moving pages, in whichever
direction and with whatever outcome, changes neither the locks nor the edges, nor
the configuration and the catalog.
-/

namespace TransactionalPages.Pool

variable {κ : Type}

/-- Two pools with the same configuration, catalog, locks and edges. -/
structure SameControl (before after : Pool κ) : Prop where
  config : after.config = before.config
  catalog : after.catalog = before.catalog
  locks : after.locks = before.locks
  waits : after.waits = before.waits

namespace SameControl

theorem refl (pool : Pool κ) : SameControl pool pool := ⟨rfl, rfl, rfl, rfl⟩

theorem trans {a b c : Pool κ} (first : SameControl a b) (second : SameControl b c) :
    SameControl a c where
  config := second.config.trans first.config
  catalog := second.catalog.trans first.catalog
  locks := second.locks.trans first.locks
  waits := second.waits.trans first.waits

end SameControl

variable {pool : Pool κ} {txn : TransactionId} {page : PageId} {ref : PageRef}

theorem setStore_control (pool : Pool κ) (ref : StoreRef) (store : Store κ) :
    SameControl pool (pool.setStore ref store) := ⟨rfl, rfl, rfl, rfl⟩

theorem setObject_control (pool : Pool κ) (ref : PageRef) (page : Page) :
    SameControl pool (pool.setObject ref page) := ⟨rfl, rfl, rfl, rfl⟩

theorem setCache_control (pool : Pool κ) (cache : Cache PageRef) :
    SameControl pool { pool with cache := cache } := ⟨rfl, rfl, rfl, rfl⟩

variable [Foreign κ]

theorem readStore_control (pool : Pool κ) (ref : StoreRef) (page : PageId) :
    SameControl pool (pool.readStore ref page).1 := setStore_control ..

theorem writeStore_control (pool : Pool κ) (ref : StoreRef) (page : Page) :
    SameControl pool (pool.writeStore ref page).1 := setStore_control ..

/-! ## Writing back -/

theorem flushPage_control (pool : Pool κ) (page : PageId) :
    SameControl pool (pool.flushPage page).1 := by
  simp only [flushPage]
  split
  next => exact .refl pool
  next table _ =>
    split
    next => exact .refl pool
    next ref _ =>
      have wrote := writeStore_control pool table.store (pool.object ref)
      split
      · split
        next failed =>
          rw [failed] at wrote
          exact wrote
        next done =>
          rw [done] at wrote
          exact wrote.trans (setObject_control ..)
      · exact .refl pool

theorem flushEach_cons {pages : List PageId} (went : (pool.flushPage page).2 = .ok ()) :
    pool.flushEach (page :: pages) = (pool.flushPage page).1.flushEach pages := by
  cases flushed : pool.flushPage page with
  | mk mid outcome =>
    rw [flushed] at went
    obtain rfl : outcome = .ok () := went
    simp only [flushEach, flushed]

theorem flushEach_cons_error {pages : List PageId} {e : PoolError}
    (fails : (pool.flushPage page).2 = .error e) :
    pool.flushEach (page :: pages) = ((pool.flushPage page).1, .error e) := by
  cases flushed : pool.flushPage page with
  | mk mid outcome =>
    rw [flushed] at fails
    obtain rfl : outcome = .error e := fails
    simp only [flushEach, flushed]

/-- Pages have been written back if the first of them has, and then the others. -/
theorem flushEach_cons_ok {pages : List PageId}
    (went : (pool.flushEach (page :: pages)).2 = .ok ()) :
    (pool.flushPage page).2 = .ok () ∧ ((pool.flushPage page).1.flushEach pages).2 = .ok () := by
  cases first : (pool.flushPage page).2 with
  | error e =>
    rw [flushEach_cons_error first] at went
    cases went
  | ok _ =>
    rw [flushEach_cons first] at went
    exact ⟨rfl, went⟩

/-- What writing back any page keeps, writing back many of them keeps. -/
theorem flushEach_keeps {P : Pool κ → Prop}
    (one : ∀ (pool : Pool κ) page, P pool → P (pool.flushPage page).1) (pages : List PageId)
    {pool : Pool κ} (holds : P pool) : P (pool.flushEach pages).1 := by
  induction pages generalizing pool with
  | nil => exact holds
  | cons page rest ih =>
    have first := one pool page holds
    cases went : (pool.flushPage page).2 with
    | error e =>
      rw [flushEach_cons_error went]
      exact first
    | ok _ =>
      rw [flushEach_cons went]
      exact ih first

theorem flushCached_keeps {P : Pool κ → Prop}
    (one : ∀ (pool : Pool κ) page, P pool → P (pool.flushPage page).1)
    (cached : List (PageId × PageRef)) {pool : Pool κ} (holds : P pool) :
    P (pool.flushCached cached).1 := by
  induction cached generalizing pool with
  | nil => exact holds
  | cons entry rest ih =>
    obtain ⟨page, ref⟩ := entry
    have first := one pool page holds
    simp only [flushCached]
    split
    · cases flushed : pool.flushPage page with
      | mk mid answer =>
        rw [flushed] at first
        cases answer with
        | error e => exact first
        | ok _ => exact ih first
    · exact ih holds

/-- What writing back any page and letting the transaction go keep, a commit keeps. -/
theorem commit_keeps {P : Pool κ → Prop}
    (one : ∀ (pool : Pool κ) page, P pool → P (pool.flushPage page).1)
    (gone : ∀ pool : Pool κ, P pool → P (pool.letGo txn)) (holds : P pool) :
    P (pool.commit txn).1 := by
  have flushed := flushEach_keeps one (pool.locks.pagesHeldBy txn) holds
  simp only [commit, flushPages]
  cases outcome : pool.flushEach (pool.locks.pagesHeldBy txn) with
  | mk moved answer =>
    rw [outcome] at flushed
    cases answer with
    | error e => exact flushed
    | ok _ => exact gone moved flushed

theorem flushEach_control (pages : List PageId) (pool : Pool κ) :
    SameControl pool (pool.flushEach pages).1 :=
  flushEach_keeps (P := SameControl pool)
    (fun mid page control => control.trans (mid.flushPage_control page)) pages (.refl pool)

theorem flushCached_control (cached : List (PageId × PageRef)) (pool : Pool κ) :
    SameControl pool (pool.flushCached cached).1 :=
  flushCached_keeps (P := SameControl pool)
    (fun mid page control => control.trans (mid.flushPage_control page)) cached (.refl pool)

theorem flushPages_control (pool : Pool κ) (txn : TransactionId) :
    SameControl pool (pool.flushPages txn).1 := flushEach_control _ pool

/-! ## Rolling back -/

theorem discard_control {κ : Type} (pool : Pool κ) (page : PageId) :
    SameControl pool (pool.discard page) := setCache_control ..

theorem restorePage_control (pool : Pool κ) (txn : TransactionId) (page : PageId) :
    SameControl pool (pool.restorePage txn page).1 := by
  simp only [restorePage]
  split
  next => exact .refl pool
  next table _ =>
    split
    next => exact .refl pool
    next ref _ =>
      have reloaded := readStore_control pool table.store page
      split
      · split
        next failed =>
          rw [failed] at reloaded
          exact reloaded
        next done =>
          rw [done] at reloaded
          exact (reloaded.trans (setObject_control ..)).trans (setCache_control ..)
      · exact setCache_control ..

theorem restoreEach_control (txn : TransactionId) (pages : List PageId) (pool : Pool κ) :
    SameControl pool (pool.restoreEach txn pages).1 := by
  induction pages generalizing pool with
  | nil => exact .refl pool
  | cons page rest ih =>
    have first := restorePage_control pool txn page
    simp only [restoreEach]
    split
    next done =>
      rw [done] at first
      exact first.trans (ih _)
    next failed =>
      rw [failed] at first
      split
      · exact first
      · exact (first.trans (discard_control ..)).trans (ih _)

/-! ## Ending a transaction -/

/-- A commit lets the transaction go, or keeps all locks and edges. -/
theorem commit_control (pool : Pool κ) (txn : TransactionId) :
    ∃ moved, SameControl pool moved ∧
      ((pool.commit txn).1 = moved ∨ (pool.commit txn).1 = moved.letGo txn) := by
  have moved := flushPages_control pool txn
  simp only [commit]
  split
  next failed =>
    rw [failed] at moved
    exact ⟨_, moved, Or.inl rfl⟩
  next done =>
    rw [done] at moved
    exact ⟨_, moved, Or.inr rfl⟩

/-- A commit that succeeds has written back what its transaction holds, and let it go. -/
theorem commit_eq_ok (succeeds : (pool.commit txn).2 = .ok ()) :
    (pool.flushPages txn).2 = .ok () ∧
      (pool.commit txn).1 = (pool.flushPages txn).1.letGo txn := by
  simp only [commit] at succeeds ⊢
  cases flushed : pool.flushPages txn with
  | mk moved answer =>
    cases answer with
    | ok _ => exact ⟨rfl, rfl⟩
    | error e =>
      rw [flushed] at succeeds
      cases succeeds

/-- An abort lets the transaction go, except that a fault ends it first. -/
theorem abort_control (pool : Pool κ) (txn : TransactionId) :
    ∃ moved, SameControl pool moved ∧
      ((pool.abort txn).1 = moved ∨ (pool.abort txn).1 = moved.letGo txn) := by
  refine ⟨_, restoreEach_control txn (pool.locks.pagesHeldBy txn) pool, ?_⟩
  unfold abort
  dsimp only
  split
  · exact Or.inl rfl
  · exact Or.inr rfl
  · exact Or.inr rfl

/-! ## Asking for a lock -/

/-- A request is granted, or it closes a cycle, or it waits. -/
theorem requestLock_cases {κ : Type} (pool : Pool κ) (txn : TransactionId) (page : PageId)
    (mode : LockMode) (waited : Bool) :
    (∃ locks, pool.locks.acquire txn page mode = some locks ∧
      pool.requestLock txn page mode waited =
        ({ pool with
            locks := locks
            waits := if waited then pool.waits.clear txn else pool.waits }, .granted)) ∨
    (pool.locks.acquire txn page mode = none ∧
      (pool.waits.block txn (pool.locks.holderList page)).2 = true ∧
      pool.requestLock txn page mode waited =
        ({ pool with waits := (pool.waits.block txn (pool.locks.holderList page)).1 },
          .victim)) ∨
    (pool.locks.acquire txn page mode = none ∧
      (pool.waits.block txn (pool.locks.holderList page)).2 = false ∧
      pool.requestLock txn page mode waited =
        ({ pool with waits := (pool.waits.block txn (pool.locks.holderList page)).1 },
          .refused)) := by
  unfold requestLock
  cases asked : pool.locks.acquire txn page mode with
  | some locks => exact Or.inl ⟨locks, rfl, rfl⟩
  | none =>
    cases cycle : (pool.waits.block txn (pool.locks.holderList page)).2 with
    | true => exact Or.inr (Or.inl ⟨rfl, rfl, by simp [cycle]⟩)
    | false => exact Or.inr (Or.inr ⟨rfl, rfl, by simp [cycle]⟩)

end TransactionalPages.Pool
