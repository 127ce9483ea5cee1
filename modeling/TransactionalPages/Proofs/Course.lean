import TransactionalPages.Proofs.Formed
import TransactionalPages.Proofs.Operation

/-!
# The course of an operation

Whatever has been written to the pages, an operation moves on by asking for
locks, loading pages and allocating them, and gives back only locks that it has
taken since it was begun or taken up again. A transaction therefore holds at the
end of a turn all that it held at its beginning, in the same modes or stronger
ones, and the others hold what they held.
-/

namespace TransactionalPages

/-! ## Modes -/

/-- Whether holding one mode is as good as holding another. -/
def LockMode.Covers (held asked : LockMode) : Prop := asked = .exclusive → held = .exclusive

namespace LockMode

theorem Covers.refl (mode : LockMode) : mode.Covers mode := id

theorem Covers.trans {a b c : LockMode} (first : a.Covers b) (second : b.Covers c) : a.Covers c :=
  first ∘ second

theorem raise_covers_asked (held : Option LockMode) (asked : LockMode) :
    (raise held asked).Covers asked := by
  rintro rfl
  cases held with
  | none => rfl
  | some mode => cases mode <;> rfl

theorem raise_covers_held {held asked : LockMode} : (raise (some held) asked).Covers held := by
  rintro rfl
  rfl

end LockMode

/-- A transaction holds a page in a mode, or in a stronger one. -/
def LockTable.AtLeast (t : LockTable) (txn : TransactionId) (page : PageId) (mode : LockMode) :
    Prop := ∃ held, t.mode? txn page = some held ∧ held.Covers mode

namespace LockTable

variable {t u : LockTable} {txn : TransactionId} {page : PageId} {mode : LockMode}

theorem atLeast_of_mode (held : t.mode? txn page = some mode) : t.AtLeast txn page mode :=
  ⟨mode, held, .refl mode⟩

theorem AtLeast.holds (held : t.AtLeast txn page mode) : t.holds txn page := by
  obtain ⟨_, found, _⟩ := held
  exact holds_of_mode found

theorem AtLeast.weaken {weak : LockMode} (held : t.AtLeast txn page mode)
    (covers : mode.Covers weak) : t.AtLeast txn page weak := by
  obtain ⟨found, here, strong⟩ := held
  exact ⟨found, here, strong.trans covers⟩

theorem AtLeast.congr (held : t.AtLeast txn page mode)
    (same : u.mode? txn page = t.mode? txn page) : u.AtLeast txn page mode := by
  obtain ⟨found, here, strong⟩ := held
  exact ⟨found, same.trans here, strong⟩

theorem atLeast_acquired {asked : LockMode} (granted : t.acquire txn page asked = some u) :
    u.AtLeast txn page asked :=
  ⟨_, acquire_self granted, LockMode.raise_covers_asked _ _⟩

/-- A request that is granted takes nothing away from anyone. -/
theorem AtLeast.acquire {a : TransactionId} {p : PageId} {asked : LockMode}
    (held : t.AtLeast a p mode) (granted : t.acquire txn page asked = some u) :
    u.AtLeast a p mode := by
  obtain ⟨found, here, strong⟩ := held
  by_cases same : a = txn ∧ p = page
  · obtain ⟨rfl, rfl⟩ := same
    refine ⟨_, acquire_self granted, ?_⟩
    rw [here]
    exact LockMode.raise_covers_held.trans strong
  · exact ⟨found, (acquire_other granted same).trans here, strong⟩

end LockTable

/-! ## Drifting -/

namespace Pool

/-- What a transaction does on its way, where it set out from `base`: it gives back no lock that
it held there. -/
inductive Drift (txn : TransactionId) (base : Pool) : Pool → Prop where
  | start : Drift txn base base
  | ask {mid : Pool} (drift : Drift txn base mid) (page : PageId) (mode : LockMode)
    (waited : Bool) : Drift txn base (mid.requestLock txn page mode waited).1
  | load {mid : Pool} (drift : Drift txn base mid) (page : PageId) :
    Drift txn base (mid.load page).1
  | release {mid : Pool} (drift : Drift txn base mid) {page : PageId}
    (fresh : ¬base.locks.holds txn page) : Drift txn base (mid.releaseLock txn page)
  | count {mid : Pool} (drift : Drift txn base mid) (store : StoreRef) :
    Drift txn base (mid.countPages store).1
  | allocate {mid : Pool} (drift : Drift txn base mid) (store : StoreRef) :
    Drift txn base (mid.allocatePage store).1
  /-- Only on a page larger than any in a formed pool. -/
  | spoil {mid : Pool} (drift : Drift txn base mid) {page : PageId} {ref : PageRef}
    (held : mid.cache.peek? page = some ref)
    (large : Config.maxPageSize < (mid.object ref).data.size) (new : Bytes) :
    Drift txn base (mid.setObject ref { mid.object ref with data := new })

/-- A transaction took its turn: the pool is formed, the others hold what they held, and the
transaction holds that much at least. -/
structure Spares (txn : TransactionId) (base after : Pool) : Prop where
  formed : after.Formed
  shape : SameShape base after
  others : ∀ a page, a ≠ txn → after.locks.mode? a page = base.locks.mode? a page
  kept : ∀ page mode, base.locks.AtLeast txn page mode → after.locks.AtLeast txn page mode

variable {pool base mid after : Pool} {txn : TransactionId} {page : PageId} {ref : PageRef}

theorem load_control (pool : Pool) (page : PageId) : SameControl pool (pool.load page).1 := by
  rcases pool.load_cases page with
    ⟨ref, after, _, sheds, _, eq⟩ | ⟨e, after, _, sheds, _, eq⟩ |
    ⟨_, _, mid, _, _, _, _, sheds, _, eq⟩
  · rw [eq]
    exact sheds.control
  · rw [eq]
    exact sheds.control
  · rw [eq]
    exact sheds.control.trans ⟨rfl, rfl, rfl, rfl⟩

theorem load_media (pool : Pool) (page : PageId) : SameMedia pool (pool.load page).1 := by
  rcases pool.load_cases page with
    ⟨ref, after, _, sheds, _, eq⟩ | ⟨e, after, _, sheds, _, eq⟩ |
    ⟨_, _, mid, _, _, _, _, sheds, _, eq⟩
  · rw [eq]
    exact sheds.media
  · rw [eq]
    exact sheds.media
  · rw [eq]
    exact sheds.media.trans (media_of_same rfl rfl rfl)

theorem Drift.shape (drift : Drift txn base after) : SameShape base after := by
  induction drift with
  | start => exact .refl base
  | ask _ page mode waited ih => exact ih.trans (requestLock_media _ txn page mode waited).shape
  | load _ page ih => exact ih.trans (load_media _ page).shape
  | release _ _ ih => exact ih.trans (shape_of_same rfl rfl rfl)
  | count _ store ih => exact ih.trans (countPages_media _ store).shape
  | allocate _ store ih => exact ih.trans (allocatePage_shape _ store)
  | spoil _ _ _ _ ih => exact ih.trans (setObject_media ..).shape

/-- The others hold what they held. -/
theorem Drift.others (drift : Drift txn base after) {a : TransactionId} (other : a ≠ txn)
    (p : PageId) : after.locks.mode? a p = base.locks.mode? a p := by
  induction drift with
  | start => rfl
  | @ask mid _ page mode waited ih =>
    rcases mid.requestLock_cases txn page mode waited with
      ⟨locks, granted, eq⟩ | ⟨_, _, eq⟩ | ⟨_, _, eq⟩
    · rw [eq]
      exact (LockTable.acquire_other granted fun both => other both.1).trans ih
    · rw [eq]
      exact ih
    · rw [eq]
      exact ih
  | @load mid _ page ih =>
    rw [(mid.load_control page).locks]
    exact ih
  | release _ _ ih =>
    exact ((LockTable.release_mode? ..).trans (if_neg fun both => other both.1)).trans ih
  | count _ _ ih => exact ih
  | allocate _ _ ih => exact ih
  | spoil _ _ _ _ ih => exact ih

/-- The transaction holds what it held, at least. -/
theorem Drift.kept (drift : Drift txn base after) {p : PageId} {strength : LockMode}
    (held : base.locks.AtLeast txn p strength) : after.locks.AtLeast txn p strength := by
  induction drift with
  | start => exact held
  | @ask mid _ page mode waited ih =>
    rcases mid.requestLock_cases txn page mode waited with
      ⟨locks, granted, eq⟩ | ⟨_, _, eq⟩ | ⟨_, _, eq⟩
    · rw [eq]
      exact ih.acquire granted
    · rw [eq]
      exact ih
    · rw [eq]
      exact ih
  | @load mid _ page ih =>
    rw [(mid.load_control page).locks]
    exact ih
  | release _ fresh ih =>
    refine ih.congr ((LockTable.release_mode? ..).trans (if_neg fun both => fresh ?_))
    rw [← both.2]
    exact held.holds
  | count _ _ ih => exact ih
  | allocate _ _ ih => exact ih
  | spoil _ _ _ _ ih => exact ih

theorem Drift.formed (drift : Drift txn base after) (formed : base.Formed) : after.Formed := by
  induction drift with
  | start => exact formed
  | ask _ page mode waited ih => exact ih.requestLock txn page mode waited
  | load _ page ih => exact ih.load page
  | release _ _ ih => exact ih.releaseLock txn _
  | count _ store ih => exact ih.sheds (countPages_sheds _ store)
  | allocate _ store ih => exact ih.setStore (allocatePage_shape _ store)
  | @spoil mid _ page ref held large _ ih =>
    have size : (mid.object ref).data.size = mid.config.pageSize :=
      (ih.shelved page ref held).size
    have small := ih.small
    omega

theorem Drift.spares (drift : Drift txn base after) (formed : base.Formed) :
    Spares txn base after :=
  ⟨drift.formed formed, drift.shape, fun _ p other => drift.others other p,
    fun _ _ held => drift.kept held⟩

theorem Spares.atLeast (spares : Spares txn base after) {a : TransactionId} {mode : LockMode}
    (held : base.locks.AtLeast a page mode) : after.locks.AtLeast a page mode := by
  by_cases same : a = txn
  · rw [same] at held ⊢
    exact spares.kept page mode held
  · exact held.congr (spares.others a page same)

/-- What was not held on the way was not held at the beginning. -/
theorem Drift.away (drift : Drift txn base mid) (away : ¬mid.locks.holds txn page) :
    ¬base.locks.holds txn page := by
  intro held
  obtain ⟨mode, found⟩ := (LockTable.holds_iff ..).mp held
  exact away (drift.kept (LockTable.atLeast_of_mode found)).holds

/-- A transaction gives new bytes to a page that it was served. -/
theorem Spares.edit (spares : Spares txn base mid) {new : Bytes}
    (size : new.size = (mid.object ref).data.size) :
    Spares txn base (mid.setObject ref { mid.object ref with data := new, dirtier := some txn }) :=
  ⟨spares.formed.setObject rfl size, spares.shape.trans (setObject_media ..).shape,
    spares.others, spares.kept⟩

theorem Spares.sheds (spares : Spares txn base mid) (sheds : Sheds mid after) :
    Spares txn base after where
  formed := spares.formed.sheds sheds
  shape := spares.shape.trans sheds.media.shape
  others a p other := by
    rw [sheds.control.locks]
    exact spares.others a p other
  kept p mode held := by
    rw [sheds.control.locks]
    exact spares.kept p mode held

end Pool

/-! ## Orderly programs on their course -/

/-- What a program knows about a pool, whatever has been written to the pages there. -/
def Stage.Bears (txn : TransactionId) (base pool : Pool) : Stage → Prop
  | .apart away => ∀ page ∈ away, ¬pool.locks.holds txn page
  | .served page permission ref fresh seen =>
    pool.cache.peek? page = some ref ∧
      (permission = .readWrite → pool.locks.mode? txn page = some .exclusive) ∧
      (fresh = true → ¬base.locks.holds txn page) ∧
      ∀ data ∈ seen, (pool.object ref).data = data

variable {α : Type}

/-- The stores in which a program may allocate are stores of the tables that it says. -/
def Purpose.Suits (purpose : Purpose α) (pool : Pool) : Prop :=
  ∀ store table, purpose.allocates store table → (pool.store store).medium.table = table

/-- How a turn of an orderly program can end. -/
inductive Course (txn : TransactionId) (purpose : Purpose α) (base : Pool) :
    Pool × Progress α → Prop where
  | waits {mid : Pool} {request : Waiting α} (drift : Pool.Drift txn base mid)
    (pending : Pending txn purpose mid request) : Course txn purpose base (mid, .waiting request)
  | fails {mid : Pool} {e : PoolError} (drift : Pool.Drift txn base mid) :
    Course txn purpose base (mid, .done (.error e))
  | answers {mid : Pool} {a : α} (drift : Pool.Drift txn base mid) (reads : purpose.reads a) :
    Course txn purpose base (mid, .done (.ok a))
  | writes {mid : Pool} {page : PageId} {ref : PageRef} {new : Bytes}
    (drift : Pool.Drift txn base mid) (held : mid.cache.peek? page = some ref)
    (alone : mid.locks.mode? txn page = some .exclusive)
    (change : purpose.changes page (mid.object ref).data new)
    (size : new.size = (mid.object ref).data.size) :
    Course txn purpose base
      (mid.setObject ref { mid.object ref with data := new, dirtier := some txn },
        .done (.ok (purpose.changed ref)))

namespace Pool

variable {pool base : Pool} {txn : TransactionId} {purpose : Purpose α}

/-- A request that is answered goes on as what follows it does. -/
theorem serve_course (drift : Drift txn base pool) {request : Waiting α}
    {fresh : Bool} (away : fresh = true → ¬pool.locks.holds txn request.page) (waited : Bool)
    (pending : ∀ mid : Pool, mid.locks = pool.locks → Pending txn purpose mid request)
    (failed : ∀ e (mid : Pool), Drift txn base mid →
      Course txn purpose base (mid.run txn (request.next (.error e))))
    (served : ∀ ref (mid : Pool), Drift txn base mid →
      (Stage.served request.page request.permission ref fresh none).Bears txn base mid →
      Course txn purpose base (mid.run txn (request.next (.ok ref)))) :
    Course txn purpose base (pool.serve txn request waited) := by
  have asked := drift.ask request.page request.permission.mode waited
  simp only [serve]
  rcases pool.requestLock_cases txn request.page request.permission.mode waited with
    ⟨locks, granted, eq⟩ | ⟨_, _, eq⟩ | ⟨_, _, eq⟩
  · rw [eq] at asked ⊢
    dsimp only at asked ⊢
    generalize held : ({ pool with
        locks := locks
        waits := if waited then pool.waits.clear txn else pool.waits } : Pool) = mid at asked ⊢
    have midLocks : mid.locks = locks := by rw [← held]
    have loading := asked.load request.page
    have control := mid.load_control request.page
    have filed : ∀ ref, (mid.load request.page).2 = .ok ref →
        (mid.load request.page).1.cache.peek? request.page = some ref := fun _ => load_filed
    cases loaded : mid.load request.page with
    | mk after answer =>
      rw [loaded] at loading control filed
      cases answer with
      | error e => exact failed e after loading
      | ok ref =>
        refine served ref after loading ⟨filed ref rfl, ?_, ?_, fun data seen => by cases seen⟩
        · intro writing
          have afterLocks : after.locks = locks := control.locks.trans midLocks
          obtain ⟨mode, found, strong⟩ := LockTable.atLeast_acquired granted
          rw [writing] at strong
          rw [afterLocks, found, strong rfl]
        · exact fun isFresh => drift.away (away isFresh)
  · rw [eq] at asked ⊢
    exact failed _ _ asked
  · rw [eq] at asked ⊢
    exact .waits asked (pending _ rfl)

end Pool

/-- The turn of an orderly program takes its course. -/
theorem Orderly.course {purpose : Purpose α} {stage : Stage} {p : Program α}
    (orderly : Orderly purpose stage p) {txn : TransactionId} {base pool : Pool}
    (suits : purpose.Suits base) (drift : Pool.Drift txn base pool)
    (bears : stage.Bears txn base pool) : Course txn purpose base (pool.run txn p) := by
  induction orderly generalizing pool with
  | fail stage e => exact .fails drift
  | answer stage reads => exact .answers drift reads
  | forget stage _ ih => exact ih drift fun page here => absurd here (by simp)
  | @fetch away page permission next allowed failed served failedRun servedRun =>
    rw [Pool.run_fetch]
    have fresh : decide (away = some page) = true → ¬pool.locks.holds txn page := fun same =>
      bears page (of_decide_eq_true same)
    refine Pool.serve_course drift fresh false (fun mid locks => ?_)
      (fun e mid drifted => ?_) (fun ref mid drifted known => ?_)
    · exact ⟨allowed, _, by rw [locks]; exact fresh, failed, served⟩
    · exact failedRun e drifted fun page here => absurd here (by simp)
    · exact servedRun ref drifted known
  | @holds page next _ _ heldRun awayRun =>
    rw [Pool.run]
    cases held : pool.holdsLock txn page with
    | true => exact heldRun drift fun page here => absurd here (by simp)
    | false =>
      refine awayRun drift fun other here => ?_
      cases here
      exact Bool.eq_false_iff.mp held
  | @release page permission ref seen next _ ih =>
    rw [Pool.run]
    obtain ⟨_, _, fresh, _⟩ := bears
    exact ih (drift.release (fresh rfl)) fun page here => absurd here (by simp)
  | @count store next _ ih =>
    rw [Pool.run]
    exact ih _ (drift.count store) fun page here => absurd here (by simp)
  | @allocate store table next allowed _ _ failedRun ih =>
    rw [Pool.run]
    have belongs := pool.allocatePage_table store
    have own : (pool.store store).medium.table = table :=
      (drift.shape.table store).trans (suits store table allowed)
    have drifted := drift.allocate store
    cases allocated : pool.allocatePage store with
    | mk after r =>
      rw [allocated] at drifted belongs
      cases r with
      | error e => exact failedRun e drifted fun page here => absurd here (by simp)
      | ok page =>
        have same : page.table = table := (belongs page rfl).trans own
        obtain ⟨_, index⟩ := page
        cases same
        exact ih index drifted fun page here => absurd here (by simp)
  | @look page permission ref fresh seen next _ ih =>
    rw [Pool.run]
    obtain ⟨held, alone, unheld, _⟩ := bears
    refine ih (pool.object ref) drift ⟨held, alone, unheld, fun data here => ?_⟩
    cases here
    rfl
  | @edit page ref fresh old new change size =>
    rw [Pool.run, Pool.run]
    obtain ⟨held, alone, _, seen⟩ := bears
    have same : (pool.object ref).data = old := seen old rfl
    rw [← same] at change size
    exact .writes drift held (alone rfl) change size
  | @spoil page permission ref fresh old new next large _ ih =>
    rw [Pool.run]
    obtain ⟨held, _, _, seen⟩ := bears
    have same : (pool.object ref).data = old := seen old rfl
    rw [← same] at large
    exact ih (drift.spoil held large new) fun page here => absurd here (by simp)

/-- Taking up a request that waits takes its course too. -/
theorem Pending.course {purpose : Purpose α} {txn : TransactionId} {base : Pool}
    {request : Waiting α} (pending : Pending txn purpose base request)
    (suits : purpose.Suits base) : Course txn purpose base (base.retry txn request) := by
  obtain ⟨allowed, fresh, away, failed, served⟩ := pending
  rw [Pool.retry_eq_serve]
  refine Pool.serve_course .start away true (fun mid locks => ?_)
    (fun e mid drifted => ?_) (fun ref mid drifted known => ?_)
  · exact ⟨allowed, fresh, by rw [locks]; exact away, failed, served⟩
  · exact (failed e).course suits drifted fun page here => absurd here (by simp)
  · exact (served ref).course suits drifted known

/-! ## Operations on their course -/

namespace Operation

theorem purpose_suits {pool : Pool} (heaps : pool.OverHeaps) (op : Operation) :
    (op.purpose pool.catalog).Suits pool := by
  rintro store table ⟨tuple, file, _, known, rfl⟩
  exact (heaps table file known).2.2

end Operation

namespace Pool

variable {pool base : Pool} {txn : TransactionId} {op : Operation}

/-- A page that was given new bytes keeps them when the operation ends, and goes to the back of
the queue. -/
theorem finish_edited {mid : Pool} {page : PageId} {ref : PageRef}
    (known : ref.index < mid.objects.size) (id : (mid.object ref).id = page)
    (held : mid.cache.peek? page = some ref) (new : Bytes) :
    finish txn (mid.setObject ref { mid.object ref with data := new, dirtier := some txn },
        .done (.ok (.changed [ref]))) =
      ({ mid.setObject ref { mid.object ref with data := new, dirtier := some txn } with
        cache := mid.cache.toBack page }, .done (.ok (.changed [ref]))) := by
  have object : (mid.setObject ref { mid.object ref with data := new, dirtier := some txn }).object
      ref = { mid.object ref with data := new, dirtier := some txn } := by
    rw [object_setObject, if_pos ⟨rfl, known⟩]
  have still : ref.index < (mid.setObject ref
      { mid.object ref with data := new, dirtier := some txn }).objects.size :=
    Nat.lt_of_lt_of_eq known Array.size_setIfInBounds.symm
  exact finish_cached still (by rw [object]; exact id) held (by rw [object])

/-- A turn leaves the pool to the others as it was, with a request that can be taken up if it
waits. -/
theorem finish_spares (formed : base.Formed) {result : Pool × Progress Answer}
    (course : Course txn (op.purpose base.catalog) base result) :
    Spares txn base (finish txn result).1 ∧
      ∀ request, (finish txn result).2 = .waiting request →
        Pending txn (op.purpose base.catalog) (finish txn result).1 request := by
  cases course with
  | waits drift pending =>
    refine ⟨drift.spares formed, fun request waiting => ?_⟩
    cases waiting
    exact pending
  | fails drift => exact ⟨drift.spares formed, fun request waiting => by cases waiting⟩
  | @answers mid answer drift reads =>
    rw [finish_answer reads.1]
    exact ⟨drift.spares formed, fun request waiting => by cases waiting⟩
  | @writes mid page ref new drift held alone change size =>
    have spares := (drift.spares formed).edit size
    have shelved := (drift.spares formed).formed.shelved page ref held
    have ended : finish txn _ = _ := finish_edited shelved.known shelved.id held new
    show Spares txn base (finish txn (_, .done (.ok (.changed [ref])))).1 ∧
      ∀ request, (finish txn (_, .done (.ok (.changed [ref])))).2 = .waiting request → _
    rw [ended]
    exact ⟨spares.sheds (toBack_sheds held), fun request waiting => by cases waiting⟩

theorem Formed.submit (formed : pool.Formed) (txn : TransactionId) (op : Operation) :
    Spares txn pool (pool.submit txn op).1 ∧
      ∀ request, (pool.submit txn op).2 = .waiting request →
        Pending txn (op.purpose pool.catalog) (pool.submit txn op).1 request := by
  have orderly := Operation.orderly formed.heaps op
  exact finish_spares formed (orderly.course (Operation.purpose_suits formed.heaps op) .start
    fun page here => absurd here (by simp))

theorem Formed.resume (formed : pool.Formed) {request : Waiting Answer}
    (pending : Pending txn (op.purpose pool.catalog) pool request) :
    Spares txn pool (pool.resume txn request).1 ∧
      ∀ later, (pool.resume txn request).2 = .waiting later →
        Pending txn (op.purpose pool.catalog) (pool.resume txn request).1 later :=
  finish_spares formed (pending.course (Operation.purpose_suits formed.heaps op))

end Pool

end TransactionalPages
