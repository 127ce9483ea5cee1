import TransactionalPages.Proofs.Fading
import TransactionalPages.Proofs.Handling
import TransactionalPages.Proofs.Turn

/-!
# Backed pages

Whoever writes to a page object through a reference tags it first. As long as all
keep to that, and the tables stay as they are, a cached page that is clean says what
its store says, even if locks are given back early, pages are dropped, and several
transactions have written to one page.
-/

namespace TransactionalPages

/-- A page object is tagged when it is written to, and no tag is taken off by hand. -/
def Deed.Marks (pool : Pool) : Deed → Prop
  | .write ref _ _ => (pool.object ref).isDirty = true
  | .mark _ dirtier => dirtier.isSome = true
  | _ => True

instance (pool : Pool) : DecidablePred (Deed.Marks pool)
  | .write ref _ _ => inferInstanceAs (Decidable ((pool.object ref).isDirty = true))
  | .mark _ dirtier => inferInstanceAs (Decidable (dirtier.isSome = true))
  | .act _ => inferInstanceAs (Decidable True)
  | .release _ _ => inferInstanceAs (Decidable True)
  | .discard _ => inferInstanceAs (Decidable True)

namespace Pool

variable {pool base before after : Pool} {txn : TransactionId} {page : PageId} {ref : PageRef}

/-! ## Faithful pools -/

/-- A page is there in the store of its table, which says the same if the page is clean. -/
def Backed (pool : Pool) (page : PageId) (ref : PageRef) : Prop :=
  ∃ data, pool.stored? page = some data ∧
    ((pool.object ref).dirtier = none → (pool.object ref).data = data)

structure Faithful (pool : Pool) : Prop where
  formed : pool.Formed
  backed : ∀ page ref, pool.cache.peek? page = some ref → pool.Backed page ref

theorem Coherent.faithful (coherent : pool.Coherent) : pool.Faithful := by
  refine ⟨coherent.formed, fun page ref held => ?_⟩
  obtain ⟨data, stored, _, agrees⟩ := (coherent.filed page ref held).backed
  exact ⟨data, stored, agrees⟩

/-- A faithful pool stays faithful if nothing that is stored is lost, and every page that is
cached then is dirty, or was cached already as it is, or is backed. -/
theorem Faithful.evolve (faithful : before.Faithful) (formed : after.Formed)
    (stored : ∀ page data, before.stored? page = some data → after.stored? page = some data)
    (cached : ∀ page ref, after.cache.peek? page = some ref →
      (before.cache.peek? page = some ref ∧
        ((after.object ref).dirtier = none → after.object ref = before.object ref)) ∨
      after.Backed page ref) : after.Faithful := by
  refine ⟨formed, fun page ref held => ?_⟩
  rcases cached page ref held with ⟨old, same⟩ | new
  · obtain ⟨data, there, agrees⟩ := faithful.backed page ref old
    refine ⟨data, stored page data there, fun clean => ?_⟩
    have unchanged := same clean
    rw [unchanged] at clean ⊢
    exact agrees clean
  · exact new

theorem Faithful.relock (faithful : pool.Faithful) {locks : LockTable} (waits : WaitForGraph)
    (sound : locks.Sound) : ({ pool with locks := locks, waits := waits } : Pool).Faithful :=
  ⟨faithful.formed.relock waits sound, faithful.backed⟩

theorem Faithful.sheds (faithful : before.Faithful) (sheds : Sheds before after) :
    after.Faithful :=
  faithful.evolve (faithful.formed.sheds sheds) (fun _ _ there => by rwa [sheds.stored?])
    fun _ ref held => Or.inl ⟨sheds.peek? held, fun _ => sheds.object ref⟩

/-- A page object may become anything that is dirty. -/
theorem Faithful.setObject (faithful : pool.Faithful) {new : Page}
    (id : new.id = (pool.object ref).id) (size : new.size = (pool.object ref).size)
    (dirty : new.isDirty = true) : (pool.setObject ref new).Faithful := by
  refine faithful.evolve (faithful.formed.setObject id size) (fun _ _ there => there)
    fun page r held => Or.inl ⟨held, fun clean => ?_⟩
  rw [object_setObject] at clean ⊢
  split at clean
  next => simp [Page.isDirty, clean] at dirty
  next other => exact if_neg other

theorem Faithful.discard (faithful : pool.Faithful) (page : PageId) :
    (pool.discard page).Faithful :=
  faithful.evolve (faithful.formed.discard page) (fun _ _ there => there)
    fun _ _ held => Or.inl ⟨Cache.peek?_of_remove held, fun _ => rfl⟩

theorem Faithful.requestLock (faithful : pool.Faithful) (txn : TransactionId) (page : PageId)
    (mode : LockMode) (waited : Bool) : (pool.requestLock txn page mode waited).1.Faithful := by
  rcases pool.requestLock_cases txn page mode waited with
    ⟨locks, granted, eq⟩ | ⟨_, _, eq⟩ | ⟨_, _, eq⟩
  · rw [eq]
    exact faithful.relock _ (LockTable.sound_acquire faithful.formed.locks granted)
  · rw [eq]
    exact faithful.relock _ faithful.formed.locks
  · rw [eq]
    exact faithful.relock _ faithful.formed.locks

theorem Faithful.load (faithful : pool.Faithful) (page : PageId) :
    (pool.load page).1.Faithful := by
  have formed := faithful.formed.load page
  rcases pool.load_cases page with
    ⟨_, after, _, sheds, _, eq⟩ | ⟨_, after, _, sheds, _, eq⟩ |
    ⟨table, stored, mid, _, known, read, _, sheds, _, eq⟩
  · rw [eq]
    exact faithful.sheds sheds
  · rw [eq]
    exact faithful.sheds sheds
  · rw [eq] at formed ⊢
    have shed := faithful.sheds sheds
    refine shed.evolve formed (fun _ _ there => there) fun q ref held => ?_
    rw [fileLoaded_peek?] at held
    split at held
    next here =>
      cases held
      subst here
      right
      refine ⟨stored.data, ?_, fun _ => by rw [fileLoaded_object, if_pos rfl]⟩
      show mid.stored? q = some stored.data
      rw [sheds.stored?]
      exact stored?_of_read known read
    next =>
      have old := (shed.formed.shelved q ref held).known
      exact Or.inl ⟨held, fun _ => by rw [fileLoaded_object, if_neg (Nat.ne_of_lt old)]⟩

theorem Faithful.allocate (faithful : pool.Faithful) (store : StoreRef) :
    (pool.allocatePage store).1.Faithful :=
  faithful.evolve (faithful.formed.setStore (pool.allocatePage_shape store))
    (fun _ _ => stored?_allocated) fun _ _ held => Or.inl ⟨held, fun _ => rfl⟩

/-! ## Writing back -/

/-- A page that is written back is in the store of its table, and no store has other pages than
before. -/
theorem Faithful.read_flushed (faithful : pool.Faithful) {table : Table} {medium : Medium}
    (known : pool.catalog.file? page.table = some table)
    (held : pool.cache.peek? page = some ref)
    (wrote : (pool.store table.store).medium.write (pool.object ref) = .ok medium)
    (store : StoreRef) (q : PageId) :
    ((pool.flushed table.store ref medium).store store).medium.read q =
      if store = table.store ∧ q = page then .ok (.clean page (pool.object ref).data)
      else (pool.store store).medium.read q := by
  obtain ⟨data, stored, _⟩ := faithful.backed page ref held
  obtain ⟨table', known', readable⟩ := stored?_eq_some.mp stored
  cases known.symm.trans known'
  have id : (pool.object ref).id = page := (faithful.formed.shelved page ref held).id
  have inside := (faithful.formed.heaps _ _ known).2.1
  have reads := Medium.read_write (by rw [id]; exact readable) wrote
  show ((pool.written table.store medium).store store).medium.read q = _
  simp only [written]
  rw [store_setStore]
  by_cases there : store = table.store
  · rw [if_pos ⟨there, inside⟩, there]
    show medium.read q = _
    rw [reads, id]
    by_cases same : q = page
    · rw [if_pos same, if_pos ⟨rfl, same⟩, same]
    · rw [if_neg same, if_neg fun both => same both.2]
  · rw [if_neg fun both => there both.1, if_neg fun both => there both.1]

theorem object_flushed (pool : Pool) (store : StoreRef) (ref q : PageRef) (medium : Medium) :
    (pool.flushed store ref medium).object q =
      if q = ref ∧ ref.index < pool.objects.size then (pool.object ref).markClean
      else pool.object q := object_setObject ..

theorem Faithful.flushPage (faithful : pool.Faithful) (page : PageId) :
    (pool.flushPage page).1.Faithful := by
  have formed := faithful.formed.flushPage page
  rcases pool.flushPage_cases page with
    ⟨_, eq⟩ | ⟨table, ref, _, medium, known, held, _, wrote, eq⟩ | ⟨_, after, _, sheds, eq⟩
  · rw [eq]
    exact faithful
  · rw [eq] at formed ⊢
    have reads := faithful.read_flushed known held wrote
    refine ⟨formed, fun q r cached => ?_⟩
    by_cases here : q = page
    · subst here
      cases held.symm.trans cached
      have readable := reads table.store q
      rw [if_pos ⟨rfl, rfl⟩] at readable
      refine ⟨_, stored?_eq_some.mpr ⟨table, known, readable⟩, fun _ => ?_⟩
      rw [object_flushed]
      split <;> rfl
    · obtain ⟨data, stored, agrees⟩ := faithful.backed q r cached
      obtain ⟨other, file, readable⟩ := stored?_eq_some.mp stored
      have apart : r ≠ ref := by
        rintro rfl
        exact here (faithful.formed.ref_injective cached held)
      refine ⟨data, stored?_eq_some.mpr ⟨other, file, ?_⟩, ?_⟩
      · rw [reads, if_neg fun both => here both.2]
        exact readable
      · rw [object_flushed, if_neg fun both => apart both.1]
        exact agrees
  · rw [eq]
    exact faithful.sheds sheds

theorem Faithful.flushEach (faithful : pool.Faithful) (pages : List PageId) :
    (pool.flushEach pages).1.Faithful :=
  flushEach_keeps (fun _ page here => here.flushPage page) pages faithful

theorem Faithful.flushCached (faithful : pool.Faithful) (cached : List (PageId × PageRef)) :
    (pool.flushCached cached).1.Faithful :=
  flushCached_keeps (fun _ page here => here.flushPage page) cached faithful

theorem Faithful.letGo (faithful : pool.Faithful) (txn : TransactionId) :
    (pool.letGo txn).Faithful :=
  faithful.relock _ (LockTable.sound_releaseAll faithful.formed.locks txn)

theorem Faithful.commit (faithful : pool.Faithful) (txn : TransactionId) :
    (pool.commit txn).1.Faithful :=
  commit_keeps (fun _ page here => here.flushPage page) (fun _ here => here.letGo txn) faithful

theorem Faithful.abort (faithful : pool.Faithful) (txn : TransactionId) :
    (pool.abort txn).1.Faithful := by
  obtain ⟨formed, rolled⟩ := faithful.formed.abort txn
  have stored : (pool.abort txn).1.stored? = pool.stored? :=
    stored?_congr (abort_formed faithful.formed txn).2.1 rolled.media
  refine faithful.evolve formed (fun _ _ there => by rwa [stored]) fun page ref held => ?_
  by_cases locked : pool.locks.holds txn page = true
  · cases cached : pool.cache.peek? page with
    | none =>
      rw [rolled.absent page locked cached] at held
      cases held
    | some r =>
      cases owns : ownsChanges txn (pool.object r) with
      | false =>
        obtain ⟨again, object⟩ := rolled.foreign page r locked cached owns
        cases again.symm.trans held
        exact Or.inl ⟨rfl, fun _ => object⟩
      | true =>
        cases error : pool.restoreError? txn page with
        | some e =>
          rw [rolled.lost page locked (by rw [error]; rfl)] at held
          cases held
        | none =>
          obtain ⟨again, data, there, object⟩ := rolled.restored page r locked cached owns error
          cases again.symm.trans held
          exact Or.inr ⟨data, by rw [stored, there], fun _ => by rw [object]⟩
  · obtain ⟨again, object⟩ := rolled.unheld page locked
    rw [again] at held
    exact Or.inl ⟨held, fun _ => object ref held⟩

theorem Faithful.ending (faithful : pool.Faithful) (txn : TransactionId) (ending : Ending) :
    (ending.run pool txn).1.Faithful := by
  rcases ending_pool pool txn ending with eq | eq | eq
  · rw [eq]
    exact faithful.commit txn
  · rw [eq]
    exact faithful.abort txn
  · rw [eq]
    exact (faithful.commit txn).abort txn

/-! ## Operations -/

theorem Faithful.drift (faithful : base.Faithful) (drift : Drift txn base after) :
    after.Faithful := by
  induction drift with
  | start => exact faithful
  | ask _ page mode waited ih => exact ih.requestLock txn page mode waited
  | load _ page ih => exact ih.load page
  | release _ _ ih => exact ih.relock _ (LockTable.sound_release ih.formed.locks txn _)
  | count _ store ih => exact ih.sheds (countPages_sheds _ store)
  | allocate _ store ih => exact ih.allocate store
  | @spoil mid _ page ref held large _ ih =>
    have size : (mid.object ref).data.size = mid.config.pageSize :=
      (ih.formed.shelved page ref held).size
    have small := ih.formed.small
    omega

theorem Faithful.finished (faithful : base.Faithful) {op : Operation}
    {result : Pool × Progress Answer}
    (course : Course txn (op.purpose base.catalog) base result) :
    (finish txn result).1.Faithful := by
  cases course with
  | waits drift => exact faithful.drift drift
  | fails drift => exact faithful.drift drift
  | answers drift reads =>
    rw [finish_answer reads.1]
    exact faithful.drift drift
  | @writes mid page ref new drift held _ _ size =>
    have moved := faithful.drift drift
    have shelved := moved.formed.shelved page ref held
    have ended : finish txn _ = _ := finish_edited shelved.known shelved.id held new
    show (finish txn (_, .done (.ok (.changed [ref])))).1.Faithful
    rw [ended]
    have edited : (mid.setObject ref
      { mid.object ref with data := new, dirtier := some txn }).Faithful :=
      moved.setObject rfl size rfl
    exact edited.sheds (toBack_sheds held)

end Pool

namespace Interleaving

variable {s : Interleaving}

/-- Whoever writes to a page on the way tags it. -/
def Tends (s : Interleaving) : List Deed → Prop
  | [] => True
  | deed :: rest => deed.Marks s.pool ∧ (s.handle deed).Tends rest

instance decidableTends (s : Interleaving) (deeds : List Deed) : Decidable (s.Tends deeds) :=
  match deeds with
  | [] => inferInstanceAs (Decidable True)
  | deed :: rest =>
    have := (s.handle deed).decidableTends rest
    inferInstanceAs (Decidable (deed.Marks s.pool ∧ (s.handle deed).Tends rest))

theorem Ready.step_faithful (ready : s.Ready) (faithful : s.pool.Faithful) (action : Action) :
    (s.step action).pool.Faithful := by
  have heaps := faithful.formed.heaps
  cases action with
  | call txn op =>
    rw [Interleaving.step]
    split
    · exact faithful
    · rw [settle_pool]
      exact faithful.finished ((Operation.orderly heaps op).course
        (Operation.purpose_suits heaps op) .start fun page here => absurd here (by simp))
  | retry txn =>
    rw [Interleaving.step]
    split
    · exact faithful
    next r found =>
      rw [settle_pool]
      exact faithful.finished
        ((ready.pending_found found).course (Operation.purpose_suits heaps r.op))
  | flush txn =>
    rw [Interleaving.step]
    split
    · exact faithful
    · exact faithful.flushEach _
  | flushAll cached =>
    rw [Interleaving.step]
    split
    · exact faithful.flushCached _
    · exact faithful
  | finish txn ending =>
    rw [Interleaving.step]
    split
    · exact faithful
    · exact faithful.ending txn ending

theorem Ready.handle_faithful (ready : s.Ready) (faithful : s.pool.Faithful) {deed : Deed}
    (marks : deed.Marks s.pool) : (s.handle deed).pool.Faithful := by
  cases deed with
  | act action => exact ready.step_faithful faithful action
  | write ref start new =>
    simp only [Interleaving.handle]
    split
    next written wrote =>
      simp only [Page.overwrite?] at wrote
      split at wrote
      next fits =>
        cases wrote
        exact faithful.setObject rfl (Bytes.size_patch_of_le fits) marks
      next => cases wrote
    next => exact faithful
  | mark ref dirtier => exact faithful.setObject rfl rfl marks
  | release txn page =>
    exact faithful.relock _ (LockTable.sound_release faithful.formed.locks txn page)
  | discard page => exact faithful.discard page

theorem Ready.handleAll_faithful (ready : s.Ready) (faithful : s.pool.Faithful)
    {deeds : List Deed} (tends : s.Tends deeds) : (s.handleAll deeds).pool.Faithful := by
  induction deeds generalizing s with
  | nil => exact faithful
  | cons deed rest ih =>
    exact ih (ready.handle deed) (ready.handle_faithful faithful tends.1) tends.2

end Interleaving

end TransactionalPages
