import TransactionalPages.Proofs.Course
import TransactionalPages.Proofs.Fading
import TransactionalPages.Proofs.Interleaving

/-!
# Whose a dirty page is

As long as pages are changed by operations on heap tables only, the transaction
that a dirty cached page names holds the page exclusively, unless the page has
strayed: its lock was given back while the page was dirty. That does not depend
on what the stores say, on the sizes of pages, or on which reads and writes fail.
When the pages of a transaction have been written back or rolled back, nothing is
left of it once its locks are gone, except for its tag on pages that strayed and
that it did not lock again.
-/

namespace TransactionalPages

namespace Pool

variable {pool base before after mid : Pool} {txn : TransactionId} {page : PageId} {ref : PageRef}
  {strayed : TransactionId → PageId → Prop}

/-- Dirty pages are held exclusively by the transactions that they name, except for pages that
have strayed from them. -/
structure Owned (strayed : TransactionId → PageId → Prop) (pool : Pool) : Prop where
  locks : pool.locks.Sound
  heaps : pool.OverHeaps
  named : pool.Named
  owned : ∀ page txn, pool.dirtier? page = some txn →
    pool.locks.mode? txn page = some .exclusive ∨ strayed txn page

theorem Coherent.ownership (coherent : pool.Coherent) : pool.Owned strayed where
  locks := coherent.locks
  heaps := coherent.heaps
  named := coherent.formed.named
  owned page txn dirty := by
    obtain ⟨ref, held, dirty⟩ := dirtier?_eq_some.mp dirty
    exact Or.inl ((coherent.filed page ref held).owned txn dirty)

theorem Owned.fades (owned : before.Owned strayed) (fades : Fades before after) :
    after.Owned strayed where
  locks := by
    rw [fades.control.locks]
    exact owned.locks
  heaps := owned.heaps.congr fades.stores
  named := fades.named owned.named
  owned page txn dirty := by
    rw [fades.control.locks]
    exact owned.owned page txn (fades.dirtier page txn dirty)

theorem Owned.relock (owned : pool.Owned strayed) {locks : LockTable} (waits : WaitForGraph)
    (sound : locks.Sound) (kept : ∀ page txn, pool.dirtier? page = some txn →
      locks.mode? txn page = some .exclusive ∨ strayed txn page) :
    ({ pool with locks := locks, waits := waits } : Pool).Owned strayed :=
  ⟨sound, owned.heaps, owned.named, kept⟩

theorem Owned.requestLock (owned : pool.Owned strayed) (txn : TransactionId) (page : PageId)
    (mode : LockMode) (waited : Bool) :
    (pool.requestLock txn page mode waited).1.Owned strayed := by
  rcases pool.requestLock_cases txn page mode waited with
    ⟨locks, granted, eq⟩ | ⟨_, _, eq⟩ | ⟨_, _, eq⟩
  · rw [eq]
    refine owned.relock _ (LockTable.sound_acquire owned.locks granted) fun q owner dirty => ?_
    refine (owned.owned q owner dirty).imp_left fun mine => ?_
    obtain ⟨held, found, strong⟩ := (LockTable.atLeast_of_mode mine).acquire granted
    rw [found, strong rfl]
  · rw [eq]
    exact owned.relock _ owned.locks owned.owned
  · rw [eq]
    exact owned.relock _ owned.locks owned.owned

/-- A transaction that gives back the lock on a page of its own lets the page stray. -/
theorem Owned.releaseLock (owned : pool.Owned strayed)
    (strays : pool.dirtier? page = some txn → strayed txn page) :
    (pool.releaseLock txn page).Owned strayed := by
  refine owned.relock _ (LockTable.sound_release owned.locks txn page) fun q owner dirty => ?_
  by_cases given : owner = txn ∧ q = page
  · obtain ⟨rfl, rfl⟩ := given
    exact Or.inr (strays dirty)
  · rw [LockTable.release_mode?, if_neg given]
    exact owned.owned q owner dirty

/-- A page that is loaded is clean, and so nobody's. -/
theorem load_dirtier (named : pool.Named) (q : PageId) (owner : TransactionId)
    (dirty : (pool.load page).1.dirtier? q = some owner) : pool.dirtier? q = some owner := by
  rcases pool.load_cases page with
    ⟨_, after, _, sheds, _, eq⟩ | ⟨_, after, _, sheds, _, eq⟩ |
    ⟨table, stored, mid, _, _, read, _, sheds, _, eq⟩
  · rw [eq] at dirty
    exact sheds.fades.dirtier q owner dirty
  · rw [eq] at dirty
    exact sheds.fades.dirtier q owner dirty
  · rw [eq] at dirty
    obtain ⟨ref, held, dirty⟩ := dirtier?_eq_some.mp dirty
    rw [fileLoaded_peek?] at held
    rw [fileLoaded_object] at dirty
    split at held
    next =>
      cases held
      rw [if_pos rfl, (Medium.read_eq_clean read).2] at dirty
      cases dirty
    next =>
      have old := (sheds.fades.named named q ref held).1
      rw [if_neg (Nat.ne_of_lt old)] at dirty
      exact sheds.fades.dirtier q owner (dirtier?_eq_some.mpr ⟨ref, held, dirty⟩)

theorem Named.load (named : pool.Named) (page : PageId) : (pool.load page).1.Named := by
  rcases pool.load_cases page with
    ⟨_, after, _, sheds, _, eq⟩ | ⟨_, after, _, sheds, _, eq⟩ |
    ⟨table, stored, mid, _, _, read, _, sheds, _, eq⟩
  · rw [eq]
    exact sheds.fades.named named
  · rw [eq]
    exact sheds.fades.named named
  · rw [eq]
    intro q ref held
    rw [fileLoaded_peek?] at held
    rw [fileLoaded_object]
    split at held
    next here =>
      cases held
      refine ⟨Nat.lt_of_lt_of_eq (Nat.lt_succ_self _) (Array.size_push _).symm, ?_⟩
      rw [if_pos rfl, (Medium.read_eq_clean read).2, here]
      rfl
    next =>
      obtain ⟨old, name⟩ := sheds.fades.named named q ref held
      refine ⟨Nat.lt_of_lt_of_eq (Nat.lt_succ_of_lt old) (Array.size_push _).symm, ?_⟩
      rw [if_neg (Nat.ne_of_lt old), name]

theorem Owned.load (owned : pool.Owned strayed) (page : PageId) :
    (pool.load page).1.Owned strayed := by
  have control := pool.load_control page
  refine ⟨?_, owned.heaps.congr (pool.load_media page).stores, owned.named.load page,
    fun q owner dirty => ?_⟩
  · rw [control.locks]
    exact owned.locks
  · rw [control.locks]
    exact owned.owned q owner (load_dirtier owned.named q owner dirty)

theorem Owned.allocate (owned : pool.Owned strayed) (store : StoreRef) :
    (pool.allocatePage store).1.Owned strayed :=
  ⟨owned.locks, owned.heaps.congr (pool.allocatePage_shape store).stores, owned.named, owned.owned⟩

/-- The exclusive holder of a page may change it and make it dirty. -/
theorem Owned.edit (owned : pool.Owned strayed) (held : pool.cache.peek? page = some ref)
    (alone : pool.locks.mode? txn page = some .exclusive) (new : Bytes) :
    (pool.setObject ref
      { pool.object ref with data := new, dirtier := some txn }).Owned strayed := by
  have named : (pool.setObject ref
      { pool.object ref with data := new, dirtier := some txn }).Named :=
    owned.named.setObject rfl
  refine ⟨owned.locks, owned.heaps.congr (setObject_media ..).stores, named, fun q owner dirty => ?_⟩
  obtain ⟨r, cached, dirty⟩ := dirtier?_eq_some.mp dirty
  rw [object_setObject] at dirty
  split at dirty
  next here =>
    -- no two pages share an object
    have same : q = page := by
      rw [← (owned.named q r cached).2, ← (owned.named page ref held).2, here.1]
    cases dirty
    rw [same]
    exact Or.inl alone
  next => exact owned.owned q owner (dirtier?_eq_some.mpr ⟨r, cached, dirty⟩)

/-! ## Operations -/

/-- A transaction on its way makes no page dirty, and gives back no lock on a page of its own that
it held before. -/
theorem Owned.drift (owned : base.Owned strayed) (drift : Drift txn base after) :
    after.Owned strayed ∧
      ∀ q, after.dirtier? q = some txn → base.locks.holds txn q ∨ strayed txn q := by
  induction drift with
  | start =>
    exact ⟨owned, fun q dirty => (owned.owned q txn dirty).imp_left LockTable.holds_of_mode⟩
  | @ask mid _ page mode waited ih =>
    refine ⟨ih.1.requestLock txn page mode waited, fun q dirty => ih.2 q ?_⟩
    rcases mid.requestLock_cases txn page mode waited with
      ⟨locks, _, eq⟩ | ⟨_, _, eq⟩ | ⟨_, _, eq⟩ <;> rw [eq] at dirty <;> exact dirty
  | load _ page ih =>
    exact ⟨ih.1.load page, fun q dirty => ih.2 q (load_dirtier ih.1.named q txn dirty)⟩
  | release _ fresh ih =>
    exact ⟨ih.1.releaseLock fun dirty => (ih.2 _ dirty).resolve_left fresh, ih.2⟩
  | @count mid _ store ih =>
    have fades := (mid.countPages_sheds store).fades
    exact ⟨ih.1.fades fades, fun q dirty => ih.2 q (fades.dirtier q txn dirty)⟩
  | allocate _ store ih => exact ⟨ih.1.allocate store, ih.2⟩
  | @spoil mid _ _ ref _ _ new ih =>
    have fades : Fades mid (mid.setObject ref { mid.object ref with data := new }) :=
      setObject_fades rfl (Or.inr rfl)
    exact ⟨ih.1.fades fades, fun q dirty => ih.2 q (fades.dirtier q txn dirty)⟩

/-- What a turn leaves to the next one. -/
structure Minds (strayed : TransactionId → PageId → Prop) (txn : TransactionId)
    (base after : Pool) : Prop where
  owned : after.Owned strayed
  stores : SameStores base after
  others : ∀ a page, a ≠ txn → after.locks.mode? a page = base.locks.mode? a page

theorem Owned.minds (owned : base.Owned strayed) (drift : Drift txn base after) :
    Minds strayed txn base after :=
  ⟨(owned.drift drift).1, drift.shape.stores, fun _ page other => drift.others other page⟩

theorem Owned.minds_fades (owned : base.Owned strayed) (fades : Fades base after) :
    Minds strayed txn base after := by
  refine ⟨owned.fades fades, fades.stores, fun a page _ => ?_⟩
  rw [fades.control.locks]

theorem Minds.trans {a b c : Pool} (first : Minds strayed txn a b)
    (second : Minds strayed txn b c) : Minds strayed txn a c :=
  ⟨second.owned, first.stores.trans second.stores, fun a page other =>
    (second.others a page other).trans (first.others a page other)⟩

theorem Owned.finished (owned : base.Owned strayed) {op : Operation} {catalog : Catalog Table}
    {result : Pool × Progress Answer} (course : Course txn (op.purpose catalog) base result) :
    Minds strayed txn base (finish txn result).1 ∧
      ∀ request, (finish txn result).2 = .waiting request →
        Pending txn (op.purpose catalog) (finish txn result).1 request := by
  cases course with
  | waits drift pending =>
    refine ⟨owned.minds drift, fun request waiting => ?_⟩
    cases waiting
    exact pending
  | fails drift => exact ⟨owned.minds drift, fun request waiting => by cases waiting⟩
  | answers drift reads =>
    rw [finish_answer reads.1]
    exact ⟨owned.minds drift, fun request waiting => by cases waiting⟩
  | @writes mid page ref new drift held alone _ _ =>
    obtain ⟨moved, stores, others⟩ := owned.minds drift
    obtain ⟨known, name⟩ := moved.named page ref held
    have ended : finish txn _ = _ := finish_edited known name held new
    show Minds strayed txn base (finish txn (_, .done (.ok (.changed [ref])))).1 ∧
      ∀ request, (finish txn (_, .done (.ok (.changed [ref])))).2 = .waiting request → _
    rw [ended]
    have edited := moved.edit held alone new
    have media : SameMedia mid (mid.setObject ref
      { mid.object ref with data := new, dirtier := some txn }) := setObject_media ..
    have queued : Sheds (mid.setObject ref
      { mid.object ref with data := new, dirtier := some txn }) _ := toBack_sheds held
    exact ⟨⟨edited.fades queued.fades, stores.trans (media.stores.trans queued.media.stores),
      others⟩, fun request waiting => by cases waiting⟩

/-! ## Endings -/

/-- Nothing is left of a transaction but its tag on pages that have strayed from it and that it did
not hold before. -/
structure Gone (strayed : TransactionId → PageId → Prop) (txn : TransactionId)
    (before after : Pool) : Prop where
  unlocked : ∀ page, after.locks.mode? txn page = none
  unlisted : after.locks.pagesHeldBy txn = []
  unheld : ∀ page, txn ∉ after.locks.holderList page
  unblocked : after.waits.waitsFor txn = []
  undirtied : ∀ page ref, after.cache.peek? page = some ref →
    (after.object ref).dirtier = some txn → strayed txn page ∧ ¬before.locks.holds txn page

theorem Gone.since (gone : Gone strayed txn mid after) (locks : mid.locks = before.locks) :
    Gone strayed txn before after :=
  { gone with
    undirtied := fun page ref held dirty => by
      rw [← locks]
      exact gone.undirtied page ref held dirty }

theorem Owned.letGo (owned : pool.Owned strayed)
    (given : ∀ page ∈ pool.locks.pagesHeldBy txn, pool.dirtier? page ≠ some txn) :
    Minds strayed txn pool (pool.letGo txn) ∧ Gone strayed txn pool (pool.letGo txn) := by
  have sound := LockTable.sound_releaseAll owned.locks txn
  -- a page of the transaction is among those that it holds, if it has not strayed
  have strays : ∀ page, pool.dirtier? page = some txn →
      strayed txn page ∧ ¬pool.locks.holds txn page := by
    intro page dirty
    have loose : ¬pool.locks.holds txn page := fun held =>
      given page ((LockTable.mem_pagesHeldBy owned.locks txn page).mpr held) dirty
    exact ⟨(owned.owned page txn dirty).resolve_left (loose ∘ LockTable.holds_of_mode), loose⟩
  have modes : ∀ a page, (pool.locks.releaseAll txn).mode? a page =
      if a = txn then none else pool.locks.mode? a page :=
    fun a page => LockTable.releaseAll_mode? owned.locks txn a page
  have unheld : ∀ page, ¬(pool.locks.releaseAll txn).holds txn page := by
    intro page held
    obtain ⟨mode, found⟩ := (LockTable.holds_iff ..).mp held
    rw [modes, if_pos rfl] at found
    cases found
  constructor
  · refine ⟨owned.relock _ sound fun page owner dirty => ?_, (letGo_media pool txn).stores,
      fun a page other => (modes a page).trans (if_neg other)⟩
    by_cases mine : owner = txn
    · subst mine
      exact Or.inr (strays page dirty).1
    · rw [modes, if_neg mine]
      exact owned.owned page owner dirty
  · constructor
    case unlocked =>
      intro page
      exact (modes txn page).trans (if_pos rfl)
    case unlisted =>
      refine List.eq_nil_iff_forall_not_mem.mpr fun page listed => ?_
      exact unheld page ((LockTable.mem_pagesHeldBy sound txn page).mp listed)
    case unheld =>
      intro page listed
      exact unheld page ((LockTable.mem_holderList ..).mp listed)
    case unblocked => exact (WaitForGraph.waitsFor_clear ..).trans (if_pos rfl)
    case undirtied =>
      intro page ref held dirty
      exact strays page (dirtier?_eq_some.mpr ⟨ref, held, dirty⟩)

/-- A commit lets its transaction go when its pages are clean, or gives up with all locks kept. -/
theorem Owned.commit (owned : pool.Owned strayed) (txn : TransactionId) :
    Minds strayed txn pool (pool.commit txn).1 ∧
      ((pool.commit txn).2 = .ok () → Gone strayed txn pool (pool.commit txn).1) ∧
      ((pool.commit txn).2 ≠ .ok () → Fades pool (pool.commit txn).1) := by
  have fades := flushEach_fades (pool.locks.pagesHeldBy txn) pool
  have clean := owned.named.flushEach (pool.locks.pagesHeldBy txn)
  simp only [Pool.commit, flushPages]
  cases flushed : pool.flushEach (pool.locks.pagesHeldBy txn) with
  | mk moved answer =>
    rw [flushed] at fades clean
    cases answer with
    | error e =>
      exact ⟨owned.minds_fades fades, (fun ended => by cases ended), fun _ => fades⟩
    | ok _ =>
      have given : ∀ page ∈ moved.locks.pagesHeldBy txn, moved.dirtier? page ≠ some txn := by
        intro page listed dirty
        rw [fades.control.locks] at listed
        rw [clean rfl page listed] at dirty
        cases dirty
      obtain ⟨minds, gone⟩ := (owned.fades fades).letGo given
      exact ⟨(owned.minds_fades fades).trans minds, fun _ => gone.since fades.control.locks,
        fun failed => absurd rfl failed⟩

/-- The answer is a fault, which was met on a file without a page size. -/
def Faults (pool : Pool) (answer : Except PoolError Unit) : Prop :=
  answer = .error (.storage (.fault .emptyPageSize)) ∧
    ∃ id file, pool.catalog.file? id = some file ∧ (pool.store file.store).medium.Unsized

theorem Fades.faults {answer : Except PoolError Unit} (fades : Fades before after)
    (faults : after.Faults answer) : before.Faults answer := by
  obtain ⟨same, id, file, known, unsized⟩ := faults
  rw [fades.control.catalog] at known
  exact ⟨same, id, file, known, fades.unsized file.store unsized⟩

/-- Whatever an abort answers, it lets its transaction go, except for a fault. -/
theorem Owned.abort (owned : pool.Owned strayed) (txn : TransactionId) :
    Minds strayed txn pool (pool.abort txn).1 ∧
      (Gone strayed txn pool (pool.abort txn).1 ∧
          (∀ e, (pool.abort txn).2 = .error e → e.isFault = false) ∨
        pool.Faults (pool.abort txn).2) := by
  have fades := restoreEach_fades txn (pool.locks.pagesHeldBy txn) pool
  have given : (∀ e ∈ (pool.restoreEach txn (pool.locks.pagesHeldBy txn)).2, e.isFault = false) →
      ∀ page ∈ pool.locks.pagesHeldBy txn, _ ≠ some txn :=
    owned.named.restoreEach (pool.locks.pagesHeldBy txn)
  have faulty : ∀ e ∈ (pool.restoreEach txn (pool.locks.pagesHeldBy txn)).2, e.isFault = true → _ :=
    fun e => restoreEach_fault txn (pool.locks.pagesHeldBy txn) pool
  simp only [Pool.abort]
  generalize pool.restoreEach txn (pool.locks.pagesHeldBy txn) = restored at fades given faulty ⊢
  obtain ⟨moved, errors⟩ := restored
  dsimp only at fades given faulty ⊢
  have minds : Minds strayed txn pool moved := owned.minds_fades fades
  cases found : errors.find? PoolError.isFault with
  | some e =>
    obtain ⟨rfl, met⟩ := faulty e (List.mem_of_find?_eq_some found) (List.find?_some found)
    exact ⟨minds, Or.inr ⟨rfl, met⟩⟩
  | none =>
    have fine : ∀ e ∈ errors, e.isFault = false := fun e listed => by
      simpa using List.find?_eq_none.mp found e listed
    have foreign : ∀ page ∈ moved.locks.pagesHeldBy txn, moved.dirtier? page ≠ some txn := by
      intro page listed
      rw [fades.control.locks] at listed
      exact given fine page listed
    obtain ⟨last, left⟩ := minds.owned.letGo foreign
    have gone := left.since fades.control.locks
    cases errors with
    | nil => exact ⟨minds.trans last, Or.inl ⟨gone, fun e answer => by cases answer⟩⟩
    | cons e rest =>
      refine ⟨minds.trans last, Or.inl ⟨gone, fun other answer => ?_⟩⟩
      cases answer
      exact fine e List.mem_cons_self

/-- A commit that fails is reported, unless the abort that follows it meets a fault. -/
theorem Owned.commitHandle (owned : pool.Owned strayed) (txn : TransactionId) :
    Minds strayed txn pool (pool.commitHandle txn).1 ∧
      (Gone strayed txn pool (pool.commitHandle txn).1 ∧
          (pool.commitHandle txn).2 = (pool.commit txn).2 ∨
        pool.Faults (pool.commitHandle txn).2) := by
  obtain ⟨committed, gone, fades⟩ := owned.commit txn
  rcases pool.commitHandle_cases txn with ⟨succeeds, eq⟩ | ⟨e, e', failed, eq, reported⟩
  · rw [eq, succeeds]
    exact ⟨committed, Or.inl ⟨gone succeeds, rfl⟩⟩
  · obtain ⟨aborted, ended⟩ := committed.owned.abort txn
    have faded := fades fun succeeded => by
      rw [failed] at succeeded
      cases succeeded
    rw [eq, failed]
    refine ⟨committed.trans aborted, ?_⟩
    rcases ended with ⟨gone, fine⟩ | faults
    · left
      refine ⟨gone.since faded.control.locks, ?_⟩
      cases answer : ((pool.commit txn).1.abort txn).2 with
      | ok _ =>
        rw [answer] at reported
        rw [reported]
      | error after =>
        rw [answer] at reported
        dsimp only at reported
        rw [if_neg (by simp [fine after answer])] at reported
        rw [reported]
    · right
      have same := faults.1
      rw [same] at reported faults
      rw [reported]
      exact faded.faults faults

theorem Owned.dropHandle (owned : pool.Owned strayed) (txn : TransactionId) :
    Minds strayed txn pool (pool.dropHandle txn).1 ∧
      (Gone strayed txn pool (pool.dropHandle txn).1 ∨ pool.Faults (pool.dropHandle txn).2) := by
  obtain ⟨aborted, ended⟩ := owned.abort txn
  simp only [Pool.dropHandle]
  cases outcome : pool.abort txn with
  | mk after answer =>
    rw [outcome] at aborted ended
    cases answer with
    | ok _ =>
      rcases ended with ⟨gone, _⟩ | faults
      · exact ⟨aborted, Or.inl gone⟩
      · cases faults.1
    | error e =>
      rcases ended with ⟨gone, _⟩ | faults
      · exact ⟨aborted, Or.inl gone⟩
      · obtain ⟨same, met⟩ := faults
        cases same
        exact ⟨aborted, Or.inr ⟨rfl, met⟩⟩

/-- Whatever ends, the others keep what they have. -/
theorem Owned.ending (owned : pool.Owned strayed) (txn : TransactionId) (ending : Ending) :
    Minds strayed txn pool (ending.run pool txn).1 := by
  cases ending with
  | commit => exact (owned.commit txn).1
  | close => exact (owned.commitHandle txn).1
  | abort => exact (owned.abort txn).1
  | drop => exact (owned.dropHandle txn).1

/-- A handle that ends leaves nothing of its transaction but its tag on strayed pages that it does
not hold, and reports what the pool has answered to its commit or abort, if no fault is met. -/
structure Settles (strayed : TransactionId → PageId → Prop) (txn : TransactionId) (pool : Pool)
    (ending : Ending) : Prop where
  gone : Gone strayed txn pool (ending.run pool txn).1 ∨ pool.Faults (ending.run pool txn).2
  committing : ending = .close →
    (ending.run pool txn).2 = (pool.commit txn).2 ∨ pool.Faults (ending.run pool txn).2
  aborting : ending = .abort → (ending.run pool txn).2 = (pool.abort txn).2

theorem Owned.settles (owned : pool.Owned strayed) (txn : TransactionId) {ending : Ending}
    (handled : ending ≠ .commit) : Settles strayed txn pool ending := by
  cases ending with
  | commit => exact absurd rfl handled
  | close =>
    have ended := (owned.commitHandle txn).2
    exact ⟨ended.imp_left And.left, fun _ => ended.imp_left And.right, fun same => by cases same⟩
  | abort =>
    have ended := (owned.abort txn).2
    exact ⟨ended.imp_left And.left, (fun same => by cases same), fun _ => rfl⟩
  | drop =>
    have ended := (owned.dropHandle txn).2
    exact ⟨ended, (fun same => by cases same), fun same => by cases same⟩

end Pool

end TransactionalPages
