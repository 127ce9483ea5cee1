import TransactionalPages.Proofs.Operation

/-!
# Dependable stores

A store is dependable if no write to it is ever stopped and its pages have the
size that the pool wants. Over such stores every commit succeeds, provided that
its transaction holds pages of registered tables only, and these are the only
ones that operations on registered tables ask for.
-/

namespace TransactionalPages.Pool

variable {pool before after : Pool} {txn a : TransactionId} {page : PageId}
  {fetches : PageId → Prop}

/-- The stores of the tables have pages of the size that the pool wants. -/
def Sized (pool : Pool) : Prop :=
  ∀ id file, pool.catalog.file? id = some file →
    (pool.store file.store).medium.pageSize = pool.config.pageSize

theorem Sized.congr (sized : before.Sized) (tables : SameTables before after) : after.Sized := by
  intro id file known
  rw [tables.catalog] at known
  rw [tables.pageSize, tables.config]
  exact sized id file known

theorem sized_of_stores (heaps : pool.OverHeaps)
    (pageSize : ∀ store ∈ pool.stores, store.medium.pageSize = pool.config.pageSize) :
    pool.Sized := fun _ _ known => pageSize _ (heaps.store_mem known)

structure Dependable (pool : Pool) : Prop where
  pageSize : ∀ id file, pool.catalog.file? id = some file →
    (pool.store file.store).medium.pageSize = pool.config.pageSize
  writes : ∀ id file, pool.catalog.file? id = some file →
    ∀ call, (pool.store file.store).writes.works call = true

theorem Dependable.congr (dependable : before.Dependable) (tables : SameTables before after) :
    after.Dependable where
  pageSize := Sized.congr dependable.pageSize tables
  writes id file known := by
    rw [tables.catalog] at known
    rw [tables.writes]
    exact dependable.writes id file known

theorem dependable_of_stores (heaps : pool.OverHeaps)
    (pageSize : ∀ store ∈ pool.stores, store.medium.pageSize = pool.config.pageSize)
    (writes : ∀ store ∈ pool.stores, ∀ call, store.writes.works call = true) :
    pool.Dependable where
  pageSize := sized_of_stores heaps pageSize
  writes _ _ known := writes _ (heaps.store_mem known)

/-- Nobody holds a page of a table that is not registered. -/
def HoldsRegistered (pool : Pool) : Prop :=
  ∀ txn page, pool.locks.holds txn page → (pool.catalog.file? page.table).isSome

theorem HoldsRegistered.fewer (registered : before.HoldsRegistered)
    (catalog : after.catalog = before.catalog)
    (fewer : ∀ txn page, after.locks.holds txn page → before.locks.holds txn page) :
    after.HoldsRegistered := by
  intro txn page held
  rw [catalog]
  exact registered txn page (fewer txn page held)

theorem HoldsRegistered.releaseAll (registered : before.HoldsRegistered)
    (sound : before.locks.Sound) (catalog : after.catalog = before.catalog)
    (locks : after.locks = before.locks.releaseAll txn) : after.HoldsRegistered := by
  refine registered.fewer catalog fun a page held => ?_
  rw [locks] at held
  exact (LockTable.holds_of_releaseAll sound held).2

/-! ## Writing back -/

theorem Coherent.flushPage_ok (coherent : pool.Coherent) (dependable : pool.Dependable)
    (known : (pool.catalog.file? page.table).isSome) : (pool.flushPage page).2 = .ok () := by
  rcases (coherent.flushPage page).2.2 with ⟨done, _⟩ | ⟨failure, _, _⟩
  · exact done
  cases failure with
  | unregistered unknown =>
    rw [unknown] at known
    cases known
  | stopped known stopped =>
    rw [Outage.passes, dependable.writes _ _ known] at stopped
    cases stopped
  | @refused table ref e known held refused =>
    -- the page is in the store, so that there is nothing to refuse
    have filed := coherent.filed page ref held
    obtain ⟨data, stored, _, _⟩ := filed.backed
    obtain ⟨other, known', readable⟩ := stored?_eq_some.mp stored
    cases known.symm.trans known'
    rw [← filed.id] at readable
    have size : (pool.object ref).size = (pool.store table.store).medium.pageSize := by
      rw [dependable.pageSize _ _ known]
      exact filed.size
    obtain ⟨medium, wrote⟩ := Medium.write_of_readable readable size
    rw [wrote] at refused
    cases refused

theorem Coherent.flushEach_ok (coherent : pool.Coherent) (dependable : pool.Dependable)
    {pages : List PageId} (known : ∀ page ∈ pages, (pool.catalog.file? page.table).isSome) :
    (pool.flushEach pages).2 = .ok () := by
  induction pages generalizing pool with
  | nil => rfl
  | cons page rest ih =>
    have done := coherent.flushPage_ok dependable (known page List.mem_cons_self)
    obtain ⟨moved, tables, _⟩ := coherent.flushPage page
    rw [flushEach_cons done]
    refine ih moved (dependable.congr tables) fun q listed => ?_
    rw [tables.catalog]
    exact known q (List.mem_cons_of_mem _ listed)

/-- A commit succeeds, stores what its transaction has written and lets it go. -/
theorem Coherent.commit_ok (coherent : pool.Coherent) (dependable : pool.Dependable)
    (registered : pool.HoldsRegistered) (txn : TransactionId) :
    (pool.commit txn).2 = .ok () ∧ (pool.commit txn).1.view = pool.view.commit txn ∧
      (pool.commit txn).1.locks = pool.locks.releaseAll txn := by
  have flushed : (pool.flushPages txn).2 = .ok () := by
    refine coherent.flushEach_ok dependable fun page listed => ?_
    exact registered txn page ((LockTable.mem_pagesHeldBy coherent.locks txn page).mp listed)
  have control := flushPages_control pool txn
  have view := (coherent.commit txn).2.2
  simp only [Pool.commit] at view ⊢
  cases outcome : pool.flushPages txn with
  | mk moved answer =>
    rw [outcome] at flushed control view
    have done : answer = .ok () := flushed
    subst done
    refine ⟨rfl, view rfl, ?_⟩
    show moved.locks.releaseAll txn = _
    rw [control.locks]

/-! ## Asking for pages -/

/-- A page that is held after a move was held before, or could be asked for. -/
theorem Move.asked (move : Move txn fetches before after) (held : after.locks.holds a page) :
    before.locks.holds a page ∨ fetches page := by
  cases move with
  | @ask p allowed mode waited =>
    rcases before.requestLock_cases txn p mode waited with
      ⟨locks, granted, eq⟩ | ⟨_, _, eq⟩ | ⟨_, _, eq⟩
    · rw [eq] at held
      rcases (LockTable.acquire_holds granted a page).mp held with ⟨_, here⟩ | already
      · rw [here]
        exact Or.inr allowed
      · exact Or.inl already
    · rw [eq] at held
      exact Or.inl held
    · rw [eq] at held
      exact Or.inl held
  | load p =>
    left
    rcases before.load_cases p with
      ⟨_, _, _, sheds, _, eq⟩ | ⟨_, _, _, sheds, _, eq⟩ | ⟨_, _, mid, _, _, _, _, sheds, _, eq⟩
    · rwa [eq, sheds.control.locks] at held
    · rwa [eq, sheds.control.locks] at held
    · rw [eq] at held
      have held : mid.locks.holds a page := held
      rwa [sheds.control.locks] at held
  | release p unwritten =>
    exact Or.inl ((LockTable.release_holds before.locks txn p a page).mp held).2
  | count store => exact Or.inl held
  | allocate countable => exact Or.inl held

theorem Quiet.asked (quiet : Quiet txn fetches before after) (held : after.locks.holds a page) :
    before.locks.holds a page ∨ fetches page := by
  induction quiet with
  | refl => exact Or.inl held
  | tail _ move ih =>
    rcases move.asked held with already | allowed
    · exact ih already
    · exact Or.inr allowed

theorem Quiet.registered (quiet : Quiet txn fetches before after) (coherent : before.Coherent)
    (registered : before.HoldsRegistered)
    (allowed : ∀ page, fetches page → (before.catalog.file? page.table).isSome) :
    after.HoldsRegistered := by
  intro a page held
  rw [(quiet.effect coherent).2.1.catalog]
  rcases quiet.asked held with already | asked
  · exact registered a page already
  · exact allowed page asked

/-- An operation on a registered table leaves only pages of registered tables locked. -/
theorem Effect.registered {op : Operation} {start : Pool} {result : Pool × Progress Answer}
    (effect : Effect txn op start result) (coherent : start.Coherent)
    (registered : start.HoldsRegistered) (known : (start.catalog.file? op.table).isSome) :
    result.1.HoldsRegistered := by
  have allowed : ∀ page : PageId, page.table = op.table →
      (start.catalog.file? page.table).isSome := fun page same => by rwa [same]
  cases effect with
  | waits quiet => exact quiet.registered coherent registered allowed
  | fails quiet => exact quiet.registered coherent registered allowed
  | answers quiet => exact quiet.registered coherent registered allowed
  | writes mutates quiet alone visible whole change done tables locks =>
    refine (quiet.registered coherent registered allowed).fewer tables.catalog fun a page held => ?_
    rwa [← locks]

end TransactionalPages.Pool
