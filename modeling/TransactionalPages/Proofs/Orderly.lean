import Mathlib.Logic.Relation
import TransactionalPages.Proofs.Completion

/-!
# Orderly programs

A table program is orderly if it gives back only locks that it took on pages it
left alone, and changes a page only while it holds it exclusively, as its last
act. Whether it is can be read off the program, along with what it may change and
answer. Running an orderly program moves pages about without any change that can
be seen, and ends with one change to one page at the most.
-/

namespace TransactionalPages

/-! ## Quiet moves -/

namespace Pool

/-- What a transaction that may ask for certain pages does in a pool when it changes no page. -/
inductive Move (txn : TransactionId) (fetches : PageId → Prop) : Pool → Pool → Prop where
  | ask (pool : Pool) {page : PageId} (allowed : fetches page) (mode : LockMode) (waited : Bool) :
    Move txn fetches pool (pool.requestLock txn page mode waited).1
  | load (pool : Pool) (page : PageId) : Move txn fetches pool (pool.load page).1
  | release (pool : Pool) (page : PageId)
    (unwritten : ∀ bytes, pool.draft? page ≠ some (txn, bytes)) :
    Move txn fetches pool (pool.releaseLock txn page)
  | count (pool : Pool) (store : StoreRef) : Move txn fetches pool (pool.countPages store).1
  | allocate (pool : Pool) {store : StoreRef} (countable : (pool.store store).medium.Countable) :
    Move txn fetches pool (pool.allocatePage store).1

def Quiet (txn : TransactionId) (fetches : PageId → Prop) : Pool → Pool → Prop :=
  Relation.ReflTransGen (Move txn fetches)

variable {pool before after mid : Pool} {txn : TransactionId} {fetches : PageId → Prop}
  {page : PageId} {ref : PageRef}

theorem Move.quiet (move : Move txn fetches before after) : Quiet txn fetches before after :=
  Relation.ReflTransGen.single move

theorem Quiet.trans {a b c : Pool} (first : Quiet txn fetches a b)
    (second : Quiet txn fetches b c) : Quiet txn fetches a c :=
  Relation.ReflTransGen.trans first second

theorem requestLock_media (pool : Pool) (txn : TransactionId) (page : PageId) (mode : LockMode)
    (waited : Bool) : SameMedia pool (pool.requestLock txn page mode waited).1 := by
  rcases pool.requestLock_cases txn page mode waited with
    ⟨locks, _, eq⟩ | ⟨_, _, eq⟩ | ⟨_, _, eq⟩ <;> rw [eq] <;> exact media_of_same rfl rfl rfl

/-- A move keeps a pool coherent, and keeps every draft and every stored page. -/
theorem Move.effect (move : Move txn fetches before after) (coherent : before.Coherent) :
    after.Coherent ∧ SameTables before after ∧ after.draft? = before.draft? ∧
      ∀ page data, before.stored? page = some data → after.stored? page = some data := by
  cases move with
  | @ask page _ mode waited =>
    have view := requestLock_view before txn page mode waited
    refine ⟨coherent.requestLock .., (requestLock_media ..).toSameTables,
      congrArg View.draft view, fun p data stored => ?_⟩
    exact (congrFun (congrArg View.stored view) p).trans stored
  | load page =>
    obtain ⟨done, view, _, media⟩ := coherent.load page
    exact ⟨done, media.toSameTables, congrArg View.draft view, fun p data stored =>
      (congrFun (congrArg View.stored view) p).trans stored⟩
  | release page unwritten =>
    exact ⟨coherent.releaseLock unwritten, (media_of_same rfl rfl rfl : SameMedia before
      (before.releaseLock txn page)).toSameTables, rfl, fun p data stored => stored⟩
  | count store =>
    have sheds := before.countPages_sheds store
    refine ⟨coherent.sheds sheds, sheds.media.toSameTables, sheds.draft?, fun p data stored => ?_⟩
    rwa [sheds.stored?]
  | allocate countable =>
    obtain ⟨done, drafts, kept⟩ := coherent.allocate _
    exact ⟨done, before.allocatePage_tables _, drafts, kept⟩

/-- A move of one transaction leaves the locks of the others alone. -/
theorem Move.others (move : Move txn fetches before after) {a : TransactionId} (other : a ≠ txn)
    (page : PageId) : after.locks.mode? a page = before.locks.mode? a page := by
  cases move with
  | @ask p _ mode waited =>
    rcases before.requestLock_cases txn p mode waited with
      ⟨locks, granted, eq⟩ | ⟨_, _, eq⟩ | ⟨_, _, eq⟩
    · rw [eq]
      exact LockTable.acquire_other granted fun both => other both.1
    · rw [eq]
    · rw [eq]
  | load p =>
    rcases before.load_cases p with
      ⟨ref, after, _, sheds, _, eq⟩ | ⟨e, after, _, sheds, _, eq⟩ |
        ⟨_, _, mid, _, _, _, _, sheds, _, eq⟩
    · rw [eq, sheds.control.locks]
    · rw [eq, sheds.control.locks]
    · rw [eq]
      show mid.locks.mode? a page = _
      rw [sheds.control.locks]
  | release p unwritten =>
    show (before.locks.release txn p).mode? a page = _
    rw [LockTable.release_mode?, if_neg fun both => other both.1]
  | count store => rfl
  | allocate countable => rfl

theorem Quiet.effect (quiet : Quiet txn fetches before after) (coherent : before.Coherent) :
    after.Coherent ∧ SameTables before after ∧ after.draft? = before.draft? ∧
      ∀ page data, before.stored? page = some data → after.stored? page = some data := by
  induction quiet with
  | refl => exact ⟨coherent, .refl before, rfl, fun _ _ stored => stored⟩
  | tail _ move ih =>
    obtain ⟨middle, tables, drafts, kept⟩ := ih
    obtain ⟨done, sameTables, sameDrafts, stillKept⟩ := move.effect middle
    exact ⟨done, tables.trans sameTables, sameDrafts.trans drafts, fun page data stored =>
      stillKept page data (kept page data stored)⟩

theorem Quiet.others (quiet : Quiet txn fetches before after) {a : TransactionId} (other : a ≠ txn)
    (page : PageId) : after.locks.mode? a page = before.locks.mode? a page := by
  induction quiet with
  | refl => rfl
  | tail _ move ih => exact (move.others other page).trans ih

end Pool

/-! ## Orderly programs -/

/-- What a program may do in the end. -/
structure Purpose (α : Type) where
  /-- The pages that it may ask for. -/
  fetches : PageId → Prop
  /-- The stores in which it may allocate pages, with their tables. -/
  allocates : StoreRef → TableId → Prop
  /-- The changes to the bytes of a page that it may make. -/
  changes : PageId → (old new : Bytes) → Prop
  /-- Its answer when it has changed a page. -/
  changed : PageRef → α
  /-- The answers that it may give when it has changed nothing. -/
  reads : α → Prop

/-- What a program knows about the pool while it runs. -/
inductive Stage where
  /-- Perhaps a page that the transaction holds no lock on. -/
  | apart (away : Option PageId)
  /-- A page that was served, whether it was not held before, and its bytes if they were read. -/
  | served (page : PageId) (permission : Permission) (ref : PageRef) (fresh : Bool)
    (seen : Option Bytes)

def Stage.Holds (txn : TransactionId) (pool : Pool) : Stage → Prop
  | .apart away => ∀ page ∈ away, ¬pool.locks.holds txn page
  | .served page permission ref fresh seen =>
    pool.cache.peek? page = some ref ∧
      (permission = .readWrite → pool.locks.mode? txn page = some .exclusive) ∧
      (fresh = true → (pool.object ref).dirtier ≠ some txn) ∧
      ∀ data ∈ seen, (pool.object ref).data = data

variable {α β : Type}

inductive Orderly (purpose : Purpose α) : Stage → Program α → Prop where
  | fail (stage : Stage) (e : PoolError) : Orderly purpose stage (.stop (.error e))
  | answer (stage : Stage) {a : α} (reads : purpose.reads a) :
    Orderly purpose stage (.stop (.ok a))
  | forget (stage : Stage) {p : Program α} (rest : Orderly purpose (.apart none) p) :
    Orderly purpose stage p
  | fetch {away : Option PageId} {page : PageId} {permission : Permission}
    {next : Except PoolError PageRef → Program α} (allowed : purpose.fetches page)
    (failed : ∀ e, Orderly purpose (.apart none) (next (.error e)))
    (served : ∀ ref, Orderly purpose (.served page permission ref (decide (away = some page)) none)
      (next (.ok ref))) :
    Orderly purpose (.apart away) (.fetch page permission next)
  | holds {page : PageId} {next : Bool → Program α}
    (held : Orderly purpose (.apart none) (next true))
    (away : Orderly purpose (.apart (some page)) (next false)) :
    Orderly purpose (.apart none) (.holds page next)
  | release {page : PageId} {permission : Permission} {ref : PageRef} {seen : Option Bytes}
    {next : Program α} (rest : Orderly purpose (.apart none) next) :
    Orderly purpose (.served page permission ref true seen) (.release page next)
  | count {store : StoreRef} {next : Except StorageError UInt32 → Program α}
    (rest : ∀ r, Orderly purpose (.apart none) (next r)) :
    Orderly purpose (.apart none) (.count store next)
  | allocate {store : StoreRef} {table : TableId} {next : Except StorageError PageId → Program α}
    (allowed : purpose.allocates store table)
    (failed : ∀ e, Orderly purpose (.apart none) (next (.error e)))
    (rest : ∀ index, Orderly purpose (.apart none) (next (.ok ⟨table, index⟩))) :
    Orderly purpose (.apart none) (.allocate store next)
  | look {page : PageId} {permission : Permission} {ref : PageRef} {fresh : Bool}
    {seen : Option Bytes} {next : Page → Program α}
    (rest : ∀ p : Page,
      Orderly purpose (.served page permission ref fresh (some p.data)) (next p)) :
    Orderly purpose (.served page permission ref fresh seen) (.look ref next)
  | edit {page : PageId} {ref : PageRef} {fresh : Bool} {old new : Bytes}
    (change : purpose.changes page old new) (size : new.size = old.size) :
    Orderly purpose (.served page .readWrite ref fresh (some old))
      (.edit ref new (.stop (.ok (purpose.changed ref))))
  /-- Only on a page larger than any in a pool. -/
  | spoil {page : PageId} {permission : Permission} {ref : PageRef} {fresh : Bool}
    {old new : Bytes} {next : Program α} (large : Config.maxPageSize < old.size)
    (rest : Orderly purpose (.apart none) next) :
    Orderly purpose (.served page permission ref fresh (some old)) (.spoil ref new next)

/-- A program that answers with something made from the answer of an orderly one. -/
theorem Orderly.map {purpose : Purpose α} {stage : Stage} {p : Program α}
    (orderly : Orderly purpose stage p) (f : α → β) {purpose' : Purpose β}
    (fetches : ∀ page, purpose.fetches page → purpose'.fetches page)
    (allocates : ∀ store table, purpose.allocates store table → purpose'.allocates store table)
    (changes : ∀ page old new, purpose.changes page old new → purpose'.changes page old new)
    (changed : ∀ page old new ref, purpose.changes page old new →
      purpose'.changed ref = f (purpose.changed ref))
    (reads : ∀ a, purpose.reads a → purpose'.reads (f a)) :
    Orderly purpose' stage (p.map f) := by
  induction orderly with
  | fail stage e => exact .fail stage e
  | answer stage h => exact .answer stage (reads _ h)
  | forget stage _ ih => exact .forget stage ih
  | fetch allowed _ _ failed served => exact .fetch (fetches _ allowed) failed served
  | holds _ _ held away => exact .holds held away
  | release _ rest => exact .release rest
  | count _ rest => exact .count rest
  | allocate allowed _ _ failed rest => exact .allocate (allocates _ _ allowed) failed rest
  | look _ rest => exact .look rest
  | @edit page ref fresh old new change size =>
    show Orderly purpose' _ (.edit ref new (.stop (.ok (f (purpose.changed ref)))))
    rw [← changed page old new ref change]
    exact .edit (changes _ _ _ change) size
  | spoil large _ rest => exact .spoil large rest

/-! ## Running them -/

/-- The stores in which a program may allocate are stores of the tables that it says, and their
pages can be counted. -/
def Purpose.Fits (purpose : Purpose α) (pool : Pool) : Prop :=
  ∀ store table, purpose.allocates store table →
    (pool.store store).medium.table = table ∧ (pool.store store).medium.Countable

theorem Purpose.Fits.congr {purpose : Purpose α} {before after : Pool}
    (fits : purpose.Fits before) (tables : Pool.SameTables before after) : purpose.Fits after := by
  intro store table allocates
  obtain ⟨same, countable⟩ := fits store table allocates
  exact ⟨(tables.table store).trans same, tables.countable store countable⟩

/-- A request that waits, with a rest that is orderly whatever the answer. -/
def Pending (txn : TransactionId) (purpose : Purpose α) (pool : Pool) (request : Waiting α) :
    Prop :=
  purpose.fetches request.page ∧
  ∃ fresh : Bool, (fresh = true → ¬pool.locks.holds txn request.page) ∧
    (∀ e, Orderly purpose (.apart none) (request.next (.error e))) ∧
    ∀ ref, Orderly purpose (.served request.page request.permission ref fresh none)
      (request.next (.ok ref))

/-- How the run of an orderly program can end. -/
inductive Outcome (txn : TransactionId) (purpose : Purpose α) (start : Pool) :
    Pool × Progress α → Prop where
  | waits {mid : Pool} {request : Waiting α} (quiet : Pool.Quiet txn purpose.fetches start mid)
    (pending : Pending txn purpose mid request) : Outcome txn purpose start (mid, .waiting request)
  | fails {mid : Pool} {e : PoolError} (quiet : Pool.Quiet txn purpose.fetches start mid) :
    Outcome txn purpose start (mid, .done (.error e))
  | answers {mid : Pool} {a : α} (quiet : Pool.Quiet txn purpose.fetches start mid)
    (reads : purpose.reads a) :
    Outcome txn purpose start (mid, .done (.ok a))
  | writes {mid : Pool} {page : PageId} {ref : PageRef} {new : Bytes}
    (quiet : Pool.Quiet txn purpose.fetches start mid) (held : mid.cache.peek? page = some ref)
    (alone : mid.locks.mode? txn page = some .exclusive)
    (change : purpose.changes page (mid.object ref).data new)
    (size : new.size = (mid.object ref).data.size) :
    Outcome txn purpose start
      (mid.setObject ref { mid.object ref with data := new, dirtier := some txn },
        .done (.ok (purpose.changed ref)))

theorem Outcome.after {txn : TransactionId} {purpose : Purpose α} {start mid : Pool}
    {result : Pool × Progress α} (outcome : Outcome txn purpose mid result)
    (quiet : Pool.Quiet txn purpose.fetches start mid) : Outcome txn purpose start result := by
  cases outcome with
  | waits later pending => exact .waits (quiet.trans later) pending
  | fails later => exact .fails (quiet.trans later)
  | answers later reads => exact .answers (quiet.trans later) reads
  | writes later held alone change size => exact .writes (quiet.trans later) held alone change size

namespace Pool

variable {κ : Type} [Foreign κ] {pool : Pool} {txn : TransactionId} {purpose : Purpose α}

/-- Answers a request for a page, or lets it wait. -/
def serve (txn : TransactionId) (request : Waiting α) (waited : Bool) (pool : Pool κ) :
    Pool κ × Progress α :=
  match pool.requestLock txn request.page request.permission.mode waited with
  | (pool, .granted) =>
    let (pool, loaded) := pool.load request.page
    pool.run txn (request.next loaded)
  | (pool, .refused) => (pool, .waiting request)
  | (pool, .victim) => pool.run txn (request.next (.error (.deadlock txn request.page)))

theorem run_fetch (txn : TransactionId) (page : PageId) (permission : Permission)
    (next : Except PoolError PageRef → Program α) (pool : Pool κ) :
    pool.run txn (.fetch page permission next) = pool.serve txn ⟨page, permission, next⟩ false := by
  rw [run]
  rfl

theorem allocatePage_table (pool : Pool) (store : StoreRef) :
    ∀ page, (pool.allocatePage store).2 = .ok page →
      page.table = (pool.store store).medium.table := by
  intro page allocated
  have answer : (pool.store store).allocate.2 = .ok page := allocated
  unfold Store.allocate at answer
  dsimp only at answer
  split at answer
  · exact Medium.allocate_eq_ok answer
  · cases answer

theorem retry_eq_serve (txn : TransactionId) (request : Waiting α) (pool : Pool κ) :
    pool.retry txn request = pool.serve txn request true := rfl

/-- A request that is answered goes on as what follows it does. -/
theorem serve_outcome (coherent : pool.Coherent) (fits : purpose.Fits pool) {request : Waiting α}
    (allowed : purpose.fetches request.page) {fresh : Bool}
    (away : fresh = true → ¬pool.locks.holds txn request.page) (waited : Bool)
    (pending : ∀ mid : Pool, mid.locks = pool.locks → Pending txn purpose mid request)
    (failed : ∀ e (mid : Pool), mid.Coherent → purpose.Fits mid →
      Outcome txn purpose mid (mid.run txn (request.next (.error e))))
    (served : ∀ ref (mid : Pool), mid.Coherent → purpose.Fits mid →
      (Stage.served request.page request.permission ref fresh none).Holds txn mid →
      Outcome txn purpose mid (mid.run txn (request.next (.ok ref)))) :
    Outcome txn purpose pool (pool.serve txn request waited) := by
  have asked : Move txn purpose.fetches pool _ :=
    .ask pool allowed request.permission.mode waited
  obtain ⟨askedCoherent, askedTables, askedDrafts, _⟩ := asked.effect coherent
  have askedFits := fits.congr askedTables
  simp only [serve]
  rcases pool.requestLock_cases txn request.page request.permission.mode waited with
    ⟨locks, granted, eq⟩ | ⟨_, _, eq⟩ | ⟨_, _, eq⟩
  · rw [eq] at asked askedCoherent askedDrafts askedFits ⊢
    dsimp only at asked askedCoherent askedDrafts askedFits ⊢
    generalize held : ({ pool with
        locks := locks
        waits := if waited then pool.waits.clear txn else pool.waits } : Pool) = mid
      at asked askedCoherent askedDrafts askedFits ⊢
    have midLocks : mid.locks = locks := by rw [← held]
    have loading : Move txn purpose.fetches mid _ := .load mid request.page
    obtain ⟨done, tables, drafts, _⟩ := loading.effect askedCoherent
    have control := (askedCoherent.load request.page).2.2.1
    have filed : ∀ ref, (mid.load request.page).2 = .ok ref →
        (mid.load request.page).1.cache.peek? request.page = some ref := fun _ => load_filed
    have doneFits := askedFits.congr tables
    have quiet : Quiet txn purpose.fetches pool (mid.load request.page).1 :=
      asked.quiet.trans loading.quiet
    cases loaded : mid.load request.page with
    | mk after answer =>
      rw [loaded] at done drafts control filed doneFits quiet
      cases answer with
      | error e => exact (failed e after done doneFits).after quiet
      | ok ref =>
        refine (served ref after done doneFits ⟨filed ref rfl, ?_, ?_, ?_⟩).after quiet
        · intro exclusive
          have afterLocks : after.locks = locks := control.locks.trans midLocks
          rw [afterLocks, LockTable.acquire_self granted, exclusive]
          cases pool.locks.mode? txn request.page with
          | none => rfl
          | some mode => cases mode <;> rfl
        · intro isFresh dirty
          have draft : pool.draft? request.page = some (txn, (after.object ref).data) := by
            rw [← askedDrafts, ← drafts]
            exact draft?_eq_some.mpr ⟨ref, filed ref rfl, dirty, rfl⟩
          exact away isFresh (coherent.owner_holds draft)
        · intro data seen
          cases seen
  · rw [eq] at asked askedCoherent askedFits ⊢
    exact (failed _ _ askedCoherent askedFits).after asked.quiet
  · rw [eq] at asked ⊢
    exact .waits asked.quiet (pending _ rfl)

end Pool

/-- Running an orderly program from a coherent pool has an orderly outcome. -/
theorem Orderly.outcome {purpose : Purpose α} {stage : Stage} {p : Program α}
    (orderly : Orderly purpose stage p) {txn : TransactionId} {pool : Pool}
    (coherent : pool.Coherent) (fits : purpose.Fits pool) (holds : stage.Holds txn pool) :
    Outcome txn purpose pool (pool.run txn p) := by
  induction orderly generalizing pool with
  | fail stage e => exact .fails .refl
  | answer stage reads => exact .answers .refl reads
  | forget stage _ ih => exact ih coherent fits fun page here => absurd here (by simp)
  | @fetch away page permission next allowed failed served failedRun servedRun =>
    rw [Pool.run_fetch]
    have fresh : decide (away = some page) = true → ¬pool.locks.holds txn page := fun same =>
      holds page (of_decide_eq_true same)
    refine Pool.serve_outcome coherent fits allowed fresh false (fun mid locks => ?_)
      (fun e mid midCoherent midFits => ?_) (fun ref mid midCoherent midFits midHolds => ?_)
    · exact ⟨allowed, _, by rw [locks]; exact fresh, failed, served⟩
    · exact failedRun e midCoherent midFits fun page here => absurd here (by simp)
    · exact servedRun ref midCoherent midFits midHolds
  | @holds page next _ _ heldRun awayRun =>
    rw [Pool.run]
    cases held : pool.holdsLock txn page with
    | true => exact heldRun coherent fits fun page here => absurd here (by simp)
    | false =>
      refine awayRun coherent fits fun other here => ?_
      cases here
      exact Bool.eq_false_iff.mp held
  | @release page permission ref seen next _ ih =>
    rw [Pool.run]
    obtain ⟨held, _, unwritten, _⟩ := holds
    have move : Pool.Move txn purpose.fetches pool (pool.releaseLock txn page) := by
      refine .release pool page fun bytes draft => ?_
      obtain ⟨other, filed, dirty, _⟩ := Pool.draft?_eq_some.mp draft
      cases held.symm.trans filed
      exact unwritten rfl dirty
    obtain ⟨done, tables, _⟩ := move.effect coherent
    exact (ih done (fits.congr tables) fun page here => absurd here (by simp)).after move.quiet
  | @count store next _ ih =>
    rw [Pool.run]
    have move : Pool.Move txn purpose.fetches pool (pool.countPages store).1 := .count pool store
    obtain ⟨done, tables, _⟩ := move.effect coherent
    cases counted : pool.countPages store with
    | mk after r =>
      rw [counted] at move done tables
      exact (ih r done (fits.congr tables) fun page here => absurd here (by simp)).after move.quiet
  | @allocate store table next allowed _ _ failedRun ih =>
    rw [Pool.run]
    obtain ⟨own, countable⟩ := fits store table allowed
    have move : Pool.Move txn purpose.fetches pool (pool.allocatePage store).1 :=
      .allocate pool countable
    obtain ⟨done, tables, _⟩ := move.effect coherent
    have belongs := Pool.allocatePage_table pool store
    cases allocated : pool.allocatePage store with
    | mk after r =>
      rw [allocated] at move done tables belongs
      have doneFits := fits.congr tables
      cases r with
      | error e =>
        exact (failedRun e done doneFits fun page here => absurd here (by simp)).after move.quiet
      | ok page =>
        have same : page.table = table := (belongs page rfl).trans own
        obtain ⟨_, index⟩ := page
        cases same
        exact (ih index done doneFits fun page here => absurd here (by simp)).after move.quiet
  | @look page permission ref fresh seen next _ ih =>
    rw [Pool.run]
    obtain ⟨held, alone, unwritten, _⟩ := holds
    refine ih (pool.object ref) coherent fits ⟨held, alone, unwritten, fun data here => ?_⟩
    cases here
    rfl
  | @edit page ref fresh old new change size =>
    rw [Pool.run, Pool.run]
    obtain ⟨held, alone, _, seen⟩ := holds
    have same : (pool.object ref).data = old := seen old rfl
    rw [← same] at change size
    exact .writes .refl held (alone rfl) change size
  | @spoil page permission ref fresh old new next large _ _ =>
    obtain ⟨held, _, _, seen⟩ := holds
    have same : (pool.object ref).data = old := seen old rfl
    have size : (pool.object ref).data.size = pool.config.pageSize :=
      (coherent.filed page ref held).size
    have small := coherent.small
    rw [same] at size
    omega

/-- Taking up a request that waits has an orderly outcome too. -/
theorem Pending.outcome {purpose : Purpose α} {txn : TransactionId} {pool : Pool}
    {request : Waiting α} (pending : Pending txn purpose pool request) (coherent : pool.Coherent)
    (fits : purpose.Fits pool) : Outcome txn purpose pool (pool.retry txn request) := by
  obtain ⟨allowed, fresh, away, failed, served⟩ := pending
  rw [Pool.retry_eq_serve]
  refine Pool.serve_outcome coherent fits allowed away true (fun mid locks => ?_)
    (fun e mid midCoherent midFits => ?_) (fun ref mid midCoherent midFits midHolds => ?_)
  · exact ⟨allowed, fresh, by rw [locks]; exact away, failed, served⟩
  · exact (failed e).outcome midCoherent midFits fun page here => absurd here (by simp)
  · exact (served ref).outcome midCoherent midFits midHolds

/-- What a request waits for does not change while others move. -/
theorem Pending.stays {purpose : Purpose α} {txn : TransactionId} {before after : Pool}
    {request : Waiting α} (pending : Pending txn purpose before request)
    (same : ∀ page, after.locks.mode? txn page = before.locks.mode? txn page) :
    Pending txn purpose after request := by
  obtain ⟨allowed, fresh, away, failed, served⟩ := pending
  refine ⟨allowed, fresh, fun isFresh => ?_, failed, served⟩
  rw [LockTable.holds_congr (same _)]
  exact away isFresh

end TransactionalPages
