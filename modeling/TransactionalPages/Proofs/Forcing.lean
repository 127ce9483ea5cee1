import TransactionalPages.Proofs.Isolation

/-!
# Writes through references

A transaction that holds a page exclusively may write to it through the reference
that it was given, and mark it dirty. If the reference is still the cached page
then, a commit forces what was written to the store, whatever is fetched before
that. But a page that is clean can be evicted while its reference is in use, and
what is written afterwards is lost without a word.
-/

namespace TransactionalPages

namespace Pool

variable {pool after : Pool} {txn : TransactionId} {page : PageId} {ref : PageRef} {data : Bytes}

/-- A transaction writes bytes inside a page object and marks it dirty, all in one go. -/
def put (pool : Pool) (txn : TransactionId) (ref : PageRef) (start : Nat) (new : Bytes) : Pool :=
  match (pool.object ref).overwrite? start new with
  | some written => pool.setObject ref (written.markDirty txn)
  | none => pool

/-- An object that is not cached may become anything. -/
theorem Coherent.setObject_uncached (coherent : pool.Coherent)
    (uncached : ∀ q, pool.cache.peek? q ≠ some ref) (new : Page) :
    (pool.setObject ref new).Coherent := by
  have same : ∀ q r, pool.cache.peek? q = some r →
      (pool.setObject ref new).object r = pool.object r := by
    intro q r held
    rw [object_setObject, if_neg]
    rintro ⟨rfl, _⟩
    exact uncached q held
  have stored : (pool.setObject ref new).stored? = pool.stored? := stored?_congr rfl fun _ => rfl
  have count : (pool.setObject ref new).objects.size = pool.objects.size :=
    Array.size_setIfInBounds
  refine ⟨coherent.locks, coherent.small, coherent.heaps, coherent.capacity, coherent.cache,
    fun q r held => ?_⟩
  have filed := coherent.filed q r held
  have kept := same q r held
  constructor
  · rw [count]
    exact filed.known
  · rw [kept]
    exact filed.id
  · rw [kept]
    exact filed.size
  · rw [kept, stored]
    exact filed.backed
  · rw [kept]
    exact filed.owned

/-- The exclusive holder of a page may write to any copy of it. -/
theorem Coherent.put (coherent : pool.Coherent) {start : Nat} {new : Bytes}
    (alone : pool.locks.mode? txn (pool.object ref).id = some .exclusive) :
    (pool.put txn ref start new).Coherent := by
  simp only [Pool.put]
  split
  next written wrote =>
    simp only [Page.overwrite?] at wrote
    split at wrote
    next fits =>
      cases wrote
      by_cases current : pool.cache.peek? (pool.object ref).id = some ref
      · refine (coherent.edit current alone ?_).1
        have filed := coherent.filed _ ref current
        exact (Bytes.size_patch_of_le fits).trans filed.size
      · refine coherent.setObject_uncached (fun q held => ?_) _
        rw [(coherent.filed q ref held).id] at current
        exact current held
    next => cases wrote
  next => exact coherent

/-- What is written to the cached copy is shown. -/
theorem Coherent.put_shown (coherent : pool.Coherent) (current : pool.cache.peek? page = some ref)
    (alone : pool.locks.mode? txn page = some .exclusive) {start : Nat} {new : Bytes}
    {written : Page} (wrote : (pool.object ref).overwrite? start new = some written) :
    (pool.put txn ref start new).shown page = some written.data := by
  have filed := coherent.filed page ref current
  simp only [Pool.put]
  rw [wrote]
  dsimp only
  simp only [Page.overwrite?] at wrote
  split at wrote
  next fits =>
    cases wrote
    obtain ⟨_, view⟩ := coherent.edit current alone
      ((Bytes.size_patch_of_le fits).trans filed.size)
    have draft := (congrFun (congrArg View.draft view) page).trans (if_pos rfl)
    exact congrArg (fun d => (Option.map Prod.snd d).or _) draft
  next => cases wrote

/-- A fetch changes no page. -/
theorem Effect.fetch_quiet {q : PageId} {permission : Permission}
    {result : Pool × Progress Answer} (effect : Effect txn (.fetch q permission) pool result) :
    Quiet txn (fun p => p.table = q.table) pool result.1 := by
  cases effect with
  | waits quiet => exact quiet
  | fails quiet => exact quiet
  | answers quiet => exact quiet
  | writes mutates => cases mutates

/-- When a commit succeeds, what was shown of a page that its transaction held alone is stored. -/
theorem Coherent.commit_stored (coherent : pool.Coherent)
    (alone : pool.locks.mode? txn page = some .exclusive) (shown : pool.shown page = some data)
    (committed : (pool.commit txn).2 = .ok ()) :
    (pool.commit txn).1.stored? page = some data := by
  have view := (coherent.commit txn).2.2 committed
  have stored : (pool.commit txn).1.stored? page =
      (pool.view.wrote txn page).or (pool.stored? page) :=
    congrFun (congrArg View.stored view) page
  have held := (LockTable.mem_pagesHeldBy coherent.locks txn page).mpr
    (LockTable.holds_of_mode alone)
  rw [stored, coherent.wrote_eq held]
  exact shown

end Pool

namespace Interleaving

variable {s : Interleaving} {pool : Pool} {txn : TransactionId} {page : PageId} {data : Bytes}

/-- The states that are reached from a pool if, between the actions, transactions that do not wait
write to pages through references while they hold them exclusively. -/
inductive Handed (pool : Pool) : Interleaving → Prop where
  | start : Handed pool (start pool)
  | act {s : Interleaving} (handed : Handed pool s) (action : Action) : Handed pool (s.step action)
  | put {s : Interleaving} (handed : Handed pool s) {txn : TransactionId} {ref : PageRef}
    (free : ¬s.isSuspended txn = true)
    (alone : s.pool.locks.mode? txn (s.pool.object ref).id = some .exclusive) (start : Nat)
    (new : Bytes) : Handed pool { s with pool := s.pool.put txn ref start new }

theorem put_tables (pool : Pool) (txn : TransactionId) (ref : PageRef) (start : Nat)
    (new : Bytes) : (pool.put txn ref start new).locks = pool.locks ∧
      Pool.SameTables pool (pool.put txn ref start new) := by
  simp only [Pool.put]
  split
  · exact ⟨rfl, (Pool.setObject_media ..).toSameTables⟩
  · exact ⟨rfl, .refl pool⟩

theorem Sound.put (sound : s.Sound) {ref : PageRef}
    (alone : s.pool.locks.mode? txn (s.pool.object ref).id = some .exclusive) (start : Nat)
    (new : Bytes) : Sound { s with pool := s.pool.put txn ref start new } := by
  obtain ⟨locks, tables⟩ := put_tables s.pool txn ref start new
  refine ⟨sound.coherent.put alone, sound.countable.congr tables, fun r listed => ?_⟩
  show Pending r.txn (r.op.purpose (s.pool.put txn ref start new).catalog) _ r.request
  rw [tables.catalog]
  exact (sound.pending r listed).stays fun q => by
    show (s.pool.put txn ref start new).locks.mode? r.txn q = _
    rw [locks]

theorem Handed.sound (handed : Handed pool s) (coherent : pool.Coherent)
    (countable : pool.Countable) : s.Sound := by
  induction handed with
  | start => exact sound_start coherent countable
  | act _ action ih => exact ih.step action
  | put _ free alone start new ih => exact ih.put alone start new

/-- A transaction has written a page that it holds alone, and does nothing but fetch pages. -/
structure Carried (txn : TransactionId) (page : PageId) (data : Bytes) (s : Interleaving) :
    Prop where
  sound : s.Sound
  alone : s.pool.locks.mode? txn page = some .exclusive
  shown : s.pool.shown page = some data
  fetching : ∀ r ∈ s.suspended, r.txn = txn → ∃ q permission, r.op = .fetch q permission

/-- The transaction fetches a page, or goes on with a fetch. -/
theorem Carried.settle (carried : Carried txn page data s) {q : PageId} {permission : Permission}
    {result : Pool × Progress Answer}
    (effect : Pool.Effect txn (.fetch q permission) s.pool result)
    {others : List Suspension} (apart : ∀ r ∈ others, r ∈ s.suspended)
    (sound : (settle others s.log txn (.fetch q permission) result).Sound)
    (kept : (settle others s.log txn (.fetch q permission) result).pool.locks.AtLeast txn page
      .exclusive) : Carried txn page data (settle others s.log txn (.fetch q permission) result) := by
  refine ⟨sound, ?_, ?_, fun r listed same => ?_⟩
  · obtain ⟨mode, held, strong⟩ := kept
    rw [held, strong rfl]
  · rw [settle_pool]
    exact effect.fetch_quiet.shown carried.sound.coherent carried.shown
  · rcases mem_suspended_settle listed with before | ⟨_, op⟩
    · exact carried.fetching r (apart r before) same
    · exact ⟨q, permission, op⟩

theorem Carried.step (carried : Carried txn page data s) {action : Action}
    (fetches : action.txn? = some txn →
      (∃ q permission, action = .call txn (.fetch q permission)) ∨ action = .retry txn) :
    Carried txn page data (s.step action) := by
  have sound := carried.sound.step action
  by_cases own : action.txn? = some txn
  · have kept : (s.step action).pool.locks.AtLeast txn page .exclusive := by
      refine carried.sound.step_keeps (LockTable.atLeast_of_mode carried.alone) fun ending same => ?_
      rcases fetches own with ⟨q, permission, eq⟩ | eq
      · rw [eq] at same
        cases same
      · rw [eq] at same
        cases same
    rcases fetches own with ⟨q, permission, rfl⟩ | rfl
    · rw [Interleaving.step] at sound kept ⊢
      split
      · exact carried
      next free =>
        rw [if_neg free] at sound kept
        exact carried.settle (Pool.submit_effect carried.sound.coherent carried.sound.countable ..)
          (fun r listed => listed) sound kept
    · rw [Interleaving.step] at sound kept ⊢
      split
      · exact carried
      next r found =>
        rw [found] at sound kept
        dsimp only at sound kept
        obtain ⟨listed, same⟩ := mem_of_found found
        obtain ⟨q, permission, op⟩ := carried.fetching r listed same
        have effect := carried.sound.retry_effect listed
        rw [op] at effect sound kept ⊢
        rw [same] at effect
        exact carried.settle effect (fun r listed => (mem_of_rest listed).1) sound kept
  · obtain ⟨alone, shown⟩ := carried.sound.step_beside carried.alone own
    exact ⟨sound, alone, shown data carried.shown, fun r listed same =>
      carried.fetching r ((step_others own).1 r listed same) same⟩

theorem Carried.run (carried : Carried txn page data s) {actions : List Action}
    (fetches : ∀ action ∈ actions, action.txn? = some txn →
      (∃ q permission, action = .call txn (.fetch q permission)) ∨ action = .retry txn) :
    Carried txn page data (s.run actions) := by
  induction actions generalizing s with
  | nil => exact carried
  | cons action rest ih =>
    exact ih (carried.step (fetches action List.mem_cons_self)) fun b listed =>
      fetches b (List.mem_cons_of_mem _ listed)

/-- What a transaction wrote through a reference to the cached page is in the store when its
commit succeeds, whatever it fetches and whatever others do in between. -/
theorem committed_write_is_stored {config : Config} {catalog : Catalog Table}
    {stores : Array Store} {objects : Array Page} {pool : Pool}
    (created : Pool.create config catalog stores objects = .ok pool) (heaps : pool.OverHeaps)
    (few : ∀ store ∈ stores, store.medium.extent < 4294967295) {s : Interleaving}
    (handed : Handed pool s) {txn : TransactionId} {page : PageId} {ref : PageRef}
    (free : ¬s.isSuspended txn = true) (alone : s.pool.locks.mode? txn page = some .exclusive)
    (current : s.pool.cache.peek? page = some ref) {start : Nat} {new : Bytes} {written : Page}
    (wrote : (s.pool.object ref).overwrite? start new = some written) {later : List Action}
    (fetches : ∀ action ∈ later, action.txn? = some txn →
      (∃ q permission, action = .call txn (.fetch q permission)) ∨ action = .retry txn)
    {reached : Pool}
    (reaches : (run { s with pool := s.pool.put txn ref start new } later).pool = reached)
    (committed : (reached.commit txn).2 = .ok ()) :
    (reached.commit txn).1.stored? page = some written.data := by
  have sound := handed.sound (Pool.coherent_create created heaps)
    (Pool.countable_create created few)
  have id := (sound.coherent.filed page ref current).id
  have carried : Carried txn page written.data { s with pool := s.pool.put txn ref start new } := by
    refine ⟨sound.put (by rw [id]; exact alone) start new, ?_,
      sound.coherent.put_shown current alone wrote, fun r listed same => ?_⟩
    · show (s.pool.put txn ref start new).locks.mode? txn page = _
      rw [(put_tables s.pool txn ref start new).1]
      exact alone
    · exact absurd same (Sound.not_suspended free r listed)
  have done := carried.run fetches
  rw [← reaches] at committed ⊢
  exact done.sound.coherent.commit_stored done.alone done.shown committed

/-- Where only one page can be cached, the page that was written stays and nothing else is
loaded. -/
theorem write_before_eviction_is_stored : ∃ pool s reached,
    Pool.create (Config.sized 1 64) (Catalog.single "a" blankPair.medium) #[blankPair] #[] =
      .ok pool ∧
    (start pool).step (.call ⟨1⟩ (.fetch ⟨⟨1⟩, 0⟩ .readWrite)) = s ∧
    (run { s with pool := s.pool.put ⟨1⟩ ⟨0⟩ 0 #[42] } [.call ⟨2⟩ (.fetch ⟨⟨1⟩, 1⟩ .readOnly),
      .call ⟨1⟩ (.fetch ⟨⟨1⟩, 1⟩ .readOnly)]).pool = reached ∧
    (reached.commit ⟨1⟩).1.stored? ⟨⟨1⟩, 0⟩ = some (Bytes.patch (Bytes.zeros 64) 0 #[42]) := by
  have created : Pool.create (Config.sized 1 64) (Catalog.single "a" blankPair.medium)
    #[blankPair] #[] = .ok _ := rfl
  have few : ∀ store ∈ #[blankPair], store.medium.extent < 4294967295 := by
    intro store listed
    rw [Array.mem_singleton.mp listed]
    decide
  refine ⟨_, _, _, created, rfl, rfl, committed_write_is_stored created
    (Pool.heaps_single created) few (.act .start (.call ⟨1⟩ (.fetch ⟨⟨1⟩, 0⟩ .readWrite)))
    ?_ ?_ ?_ (?_ : _ = some ⟨⟨⟨1⟩, 0⟩, Bytes.patch (Bytes.zeros 64) 0 #[42], none⟩) ?_ rfl ?_⟩
  · decide +kernel
  · decide +kernel
  · decide +kernel
  · decide +kernel
  · simp [Action.txn?]
  · rfl

/-- Where only one page can be cached, a page that is not dirty yet makes way for another one. Its
holder writes to it, marks it dirty and commits, and the store has none of it. -/
theorem write_after_eviction_is_lost : ∃ pool s written,
    Pool.create (Config.sized 1 64) (Catalog.single "a" blankPair.medium) #[blankPair] #[] =
      .ok pool ∧
    (pool.submit ⟨1⟩ (.fetch ⟨⟨1⟩, 0⟩ .readWrite)).2 = .done (.ok (.page ⟨0⟩)) ∧
    (start pool).run [.call ⟨1⟩ (.fetch ⟨⟨1⟩, 0⟩ .readWrite),
      .call ⟨2⟩ (.fetch ⟨⟨1⟩, 1⟩ .readOnly)] = s ∧
    s.isSuspended ⟨1⟩ = false ∧ s.pool.locks.mode? ⟨1⟩ ⟨⟨1⟩, 0⟩ = some .exclusive ∧
    (s.pool.object ⟨0⟩).overwrite? 0 #[42] = some written ∧
    ((s.pool.put ⟨1⟩ ⟨0⟩ 0 #[42]).commit ⟨1⟩).2 = .ok () ∧
    ((s.pool.put ⟨1⟩ ⟨0⟩ 0 #[42]).commit ⟨1⟩).1.stored? ⟨⟨1⟩, 0⟩ ≠ some written.data := by
  have created : Pool.create (Config.sized 1 64) (Catalog.single "a" blankPair.medium)
    #[blankPair] #[] = .ok _ := rfl
  exact ⟨_, _, ⟨⟨⟨1⟩, 0⟩, Bytes.patch (Bytes.zeros 64) 0 #[42], none⟩, created, rfl, rfl,
    by decide +kernel, by decide +kernel, by decide +kernel, rfl, by decide +kernel⟩

end Interleaving

end TransactionalPages
