import TransactionalPages.Proofs.PageSize
import TransactionalPages.Proofs.Securing
import TransactionalPages.Proofs.Victim

/-!
# Failed fetches

A fetch that finds a full cache of dirty pages sends every page of the queue to
its back, one after another, and so leaves the queue as it was. The other ways to
fail come before the cache is touched. Whatever a fetch answers with when it
fails, the pages, their tags, the queue and the stores are the same as before; the
locks differ by that on the page, unless waiting for it would have closed a
cycle.

Nothing is asked of the tables here. A turn with any program leaves the edges of
the other transactions alone, and a transaction that does not wait has none.
-/

namespace TransactionalPages

namespace Pool

variable {pool before after : Pool} {txn : TransactionId} {page : PageId} {e : PoolError}

/-! ## Loads that fail -/

/-- The pages, their tags and what is stored are as they were, and so are the cache and its
queue. -/
structure KeepsPages (before after : Pool) : Prop where
  objects : after.objects = before.objects
  cache : after.cache = before.cache
  media : SameMedia before after

/-- The page could be read if there were room for it, and there is none. -/
structure Exhausted (pool : Pool) (page : PageId) : Prop where
  missing : pool.cache.peek? page = none
  readable : ∃ table stored, pool.catalog.file? page.table = some table ∧
    (pool.store table.store).reads.passes = true ∧
    (pool.store table.store).medium.read page = .ok stored ∧
    stored.size = pool.config.pageSize
  full : pool.cache.isFull = true
  dirty : ∀ q ref, pool.cache.peek? q = some ref → (pool.object ref).isDirty = true

theorem readStore_ok_iff {ref : StoreRef} {stored : Page} :
    (pool.readStore ref page).2 = .ok stored ↔
      (pool.store ref).reads.passes = true ∧ (pool.store ref).medium.read page = .ok stored := by
  simp only [readStore, Store.read, Store.injected]
  cases passes : (pool.store ref).reads.passes with
  | false => simp [Except.mapError]
  | true =>
    cases (pool.store ref).medium.read page with
    | error e => simp [Except.mapError]
    | ok found => simp [Except.mapError]

theorem readStore_keeps (pool : Pool) (ref : StoreRef) (page : PageId) :
    KeepsPages pool (pool.readStore ref page).1 :=
  ⟨rfl, rfl, readStore_media pool ref page⟩

/-- A read fails with an error of its store. -/
theorem readStore_error {ref : StoreRef} (failed : (pool.readStore ref page).2 = .error e) :
    ∃ cause, e = .storage cause := by
  simp only [readStore] at failed
  cases answered : ((pool.store ref).read page).2 with
  | ok stored =>
    rw [answered] at failed
    cases failed
  | error cause =>
    rw [answered] at failed
    cases failed
    exact ⟨cause, rfl⟩

/-- No room can be made exactly when the cache is full of dirty pages, and then nothing changes. -/
theorem makeRoom_error (refused : pool.makeRoom.2 = .error e) :
    pool.makeRoom.1 = pool ∧ e = .evictionExhausted pool.cache.capacity ∧
      pool.cache.isFull = true ∧ ∀ page ∈ pool.cache.order,
        (pool.cache.peek? page).any (fun ref => (pool.object ref).isDirty) = true := by
  simp only [makeRoom] at refused ⊢
  split at refused
  next full =>
    rw [if_pos full]
    simp only [evictOne] at refused ⊢
    cases evicted : pool.cache.evict fun ref => (pool.object ref).isDirty with
    | mk cache gone =>
      rw [evicted] at refused
      cases gone with
      | some page => cases refused
      | none =>
        cases refused
        have all := Cache.evict_eq_none_iff.mp (congrArg Prod.snd evicted)
        rw [Cache.evict_of_dirty all] at evicted
        cases evicted
        exact ⟨rfl, rfl, full, all⟩
  next => cases refused

theorem makeRoom_of_dirty (full : pool.cache.isFull = true) (all : ∀ page ∈ pool.cache.order,
    (pool.cache.peek? page).any (fun ref => (pool.object ref).isDirty) = true) :
    pool.makeRoom = (pool, .error (.evictionExhausted pool.cache.capacity)) := by
  simp only [makeRoom]
  rw [if_pos full]
  simp only [evictOne]
  rw [Cache.evict_of_dirty all]

/-- How a page is not brought into the cache, with the pool and the error that are left. -/
inductive Missed (pool : Pool) (page : PageId) : Pool → PoolError → Prop where
  | unknown (unknown : pool.catalog.file? page.table = none) :
    Missed pool page pool (.unknownTable page.table)
  | unread {table : Table} {cause : StorageError}
      (known : pool.catalog.file? page.table = some table) :
    Missed pool page (pool.readStore table.store page).1 (.storage cause)
  | crowded {table : Table} {stored : Page}
      (known : pool.catalog.file? page.table = some table)
      (reached : (pool.readStore table.store page).2 = .ok stored)
      (size : stored.size = pool.config.pageSize) (full : pool.cache.isFull = true)
      (dirty : ∀ q ∈ pool.cache.order,
        (pool.cache.peek? q).any (fun ref => (pool.object ref).isDirty) = true) :
    Missed pool page (pool.readStore table.store page).1
      (.evictionExhausted pool.cache.capacity)

theorem loadMissing_missed (failed : pool.loadMissing page = (after, .error e)) :
    Missed pool page after e := by
  simp only [loadMissing, findTable] at failed
  cases known : pool.catalog.file? page.table with
  | none =>
    rw [known] at failed
    cases failed
    exact .unknown known
  | some table =>
    rw [known] at failed
    dsimp only at failed
    cases read : pool.readStore table.store page with
    | mk moved answer =>
      have moves : (pool.readStore table.store page).1 = moved := by rw [read]
      have answered : (pool.readStore table.store page).2 = answer := by rw [read]
      rw [read] at failed
      cases answer with
      | error cause =>
        obtain ⟨cause, rfl⟩ := readStore_error answered
        cases failed
        exact moves ▸ .unread known
      | ok loaded =>
        dsimp only at failed
        split at failed
        next =>
          cases failed
          exact moves ▸ .unread known
        next fits =>
          cases made : moved.makeRoom with
          | mk roomy answer =>
            rw [made] at failed
            cases answer with
            | ok _ => cases failed
            | error cause =>
              cases failed
              subst moves
              obtain ⟨same, rfl, full, all⟩ := makeRoom_error (congrArg Prod.snd made)
              rw [made] at same
              cases same
              exact .crowded known answered (Classical.not_not.mp fits) full all

/-- A page that is not brought in leaves no trace in the pool. -/
theorem Missed.keeps (missed : Missed pool page after e) :
    KeepsPages pool after ∧ SameControl pool after := by
  cases missed with
  | unknown => exact ⟨⟨rfl, rfl, .refl pool⟩, .refl pool⟩
  | unread known => exact ⟨readStore_keeps .., readStore_control ..⟩
  | crowded known => exact ⟨readStore_keeps .., readStore_control ..⟩

theorem Missed.not_deadlock (missed : Missed pool page after e) : e.isDeadlock = false := by
  cases missed <;> rfl

theorem load_missed (failed : pool.load page = (after, .error e)) :
    pool.cache.peek? page = none ∧ Missed pool page after e := by
  simp only [load] at failed
  rw [Cache.get_eq] at failed
  cases held : pool.cache.peek? page with
  | some ref =>
    rw [held] at failed
    cases failed
  | none =>
    rw [held] at failed
    exact ⟨rfl, loadMissing_missed failed⟩

/-- There is no room for a page that was asked for exactly when it could be read and the cache is
full of dirty pages. -/
theorem load_exhausted_iff (sound : pool.cache.Sound) (n : Nat) :
    (pool.load page).2 = .error (.evictionExhausted n) ↔
      n = pool.cache.capacity ∧ pool.Exhausted page := by
  constructor
  · intro failed
    cases loaded : pool.load page with
    | mk after answer =>
      rw [loaded] at failed
      obtain rfl : answer = .error (.evictionExhausted n) := failed
      obtain ⟨missing, missed⟩ := load_missed loaded
      cases missed with
      | crowded known reached size full dirty =>
        obtain ⟨passes, readable⟩ := readStore_ok_iff.mp reached
        exact ⟨rfl, missing, ⟨_, _, known, passes, readable, size⟩, full,
          sound.aligned.all_dirty_iff.mp dirty⟩
  · rintro ⟨rfl, missing, ⟨table, stored, known, passes, readable, size⟩, full, dirty⟩
    have reached : (pool.readStore table.store page).2 = .ok stored :=
      readStore_ok_iff.mpr ⟨passes, readable⟩
    have crowded : (pool.readStore table.store page).1.makeRoom = _ :=
      makeRoom_of_dirty full (sound.aligned.all_dirty_iff.mpr dirty)
    simp only [load]
    rw [Cache.get_eq, missing]
    simp only [loadMissing, findTable]
    rw [known]
    dsimp only
    generalize read : pool.readStore table.store page = result at reached crowded
    obtain ⟨moved, answer⟩ := result
    obtain rfl : answer = .ok stored := reached
    have config : moved.config = pool.config := congrArg (fun r => r.1.config) read.symm
    have cache : moved.cache = pool.cache := congrArg (fun r => r.1.cache) read.symm
    dsimp only at crowded ⊢
    rw [config, if_neg (by rw [size]; exact fun differ => differ rfl), crowded, cache]

/-! ## Attempts -/

/-- What a load leaves of the pool it is for is not changed by its locks and edges. -/
theorem KeepsPages.relocked {locks : LockTable} {waits : WaitForGraph}
    (keeps : KeepsPages { pool with locks := locks, waits := waits } after) :
    KeepsPages pool after :=
  have media : SameMedia pool { pool with locks := locks, waits := waits } :=
    media_of_same rfl rfl rfl
  ⟨keeps.objects, keeps.cache, media.trans keeps.media⟩

theorem exhausted_relocked {locks : LockTable} {waits : WaitForGraph} :
    Exhausted { pool with locks := locks, waits := waits } page ↔ Exhausted pool page :=
  ⟨fun h => ⟨h.missing, h.readable, h.full, h.dirty⟩,
    fun h => ⟨h.missing, h.readable, h.full, h.dirty⟩⟩

/-- What an attempt to fetch a page does when it waits or fails, and when it fails for want of
room. -/
structure Attempted (capacity : Nat) (txn : TransactionId) (page : PageId)
    (permission : Permission) (before after : Pool) (waits : Prop) (fails : PoolError → Prop) :
    Prop where
  others : ∀ a, a ≠ txn → after.waits.waitsFor a = before.waits.waitsFor a
  waiting : waits → ∃ graph, after = { before with waits := graph }
  failed : ∀ e, fails e → KeepsPages before after ∧ after.waits.waitsFor txn = [] ∧
    ((e = .deadlock txn page ∧ after.locks = before.locks) ∨
      (e.isDeadlock = false ∧ after.locks.AtLeast txn page permission.mode ∧
        ∀ a q, ¬(a = txn ∧ q = page) → after.locks.mode? a q = before.locks.mode? a q))
  exhausted : before.locks.acquire txn page permission.mode ≠ none →
    ∀ n, fails (.evictionExhausted n) ↔ n = capacity ∧ before.Exhausted page

theorem Attempted.congr {capacity : Nat} {permission : Permission} {waits waits' : Prop}
    {fails fails' : PoolError → Prop}
    (attempted : Attempted capacity txn page permission before after waits fails)
    (waiting : waits' → waits) (same : ∀ e, fails' e ↔ fails e) :
    Attempted capacity txn page permission before after waits' fails' where
  others := attempted.others
  waiting := attempted.waiting ∘ waiting
  failed e told := attempted.failed e ((same e).mp told)
  exhausted asked n := (same _).trans (attempted.exhausted asked n)

/-- One attempt to fetch a page. `waited` says whether it was refused before. -/
def attempt (pool : Pool) (txn : TransactionId) (page : PageId) (permission : Permission)
    (waited : Bool) : Pool × Progress PageRef :=
  pool.proceed txn waited (.fetch page permission .stop)

/-- An attempt waits, or what follows is run with its answer. -/
def goOn {α : Type} (txn : TransactionId) (request : Waiting α) :
    Pool × Progress PageRef → Pool × Progress α
  | (pool, .waiting _) => (pool, .waiting request)
  | (pool, .done answer) => pool.run txn (request.next answer)

/-- A lock is granted and the page is loaded, or the transaction is a victim, or it waits. -/
theorem attempt_cases (pool : Pool) (txn : TransactionId) (page : PageId)
    (permission : Permission) (waited : Bool) :
    (∃ asked : Pool, ∃ locks, pool.locks.acquire txn page permission.mode = some locks ∧
      asked = { pool with
        locks := locks
        waits := if waited then pool.waits.clear txn else pool.waits } ∧
      pool.attempt txn page permission waited = ((asked.load page).1, .done (asked.load page).2)) ∨
    (∃ graph, pool.locks.acquire txn page permission.mode = none ∧
      pool.waits.block txn (pool.locks.holderList page) = (graph, true) ∧
      pool.attempt txn page permission waited =
        ({ pool with waits := graph }, .done (.error (.deadlock txn page)))) ∨
    (∃ graph, pool.locks.acquire txn page permission.mode = none ∧
      pool.waits.block txn (pool.locks.holderList page) = (graph, false) ∧
      pool.attempt txn page permission waited =
        ({ pool with waits := graph }, .waiting ⟨page, permission, .stop⟩)) := by
  simp only [attempt, proceed, serve]
  rcases pool.requestLock_cases txn page permission.mode waited with
    ⟨locks, granted, eq⟩ | ⟨denied, victim, eq⟩ | ⟨denied, victim, eq⟩
  · rw [eq]
    exact Or.inl ⟨_, locks, granted, rfl, rfl⟩
  · rw [eq]
    exact Or.inr (Or.inl ⟨_, denied, Prod.ext rfl victim, rfl⟩)
  · rw [eq]
    exact Or.inr (Or.inr ⟨_, denied, Prod.ext rfl victim, rfl⟩)

/-- A program that stands before a fetch makes an attempt and goes on from there. -/
theorem serve_eq {α : Type} (request : Waiting α) (waited : Bool) (pool : Pool) :
    pool.serve txn request waited =
      goOn txn request (pool.attempt txn request.page request.permission waited) := by
  simp only [attempt, proceed, serve]
  rcases pool.requestLock_cases txn request.page request.permission.mode waited with
    ⟨_, _, eq⟩ | ⟨_, _, eq⟩ | ⟨_, _, eq⟩
  · rw [eq]
    rfl
  · rw [eq]
    rfl
  · rw [eq]
    rfl

/-! ## Edges -/

/-- What a turn leaves of the edges: those of the others, and none of its own transaction unless
that waits. -/
structure Disentangles {α : Type} (txn : TransactionId) (before : Pool)
    (result : Pool × Progress α) : Prop where
  others : ∀ a, a ≠ txn → result.1.waits.waitsFor a = before.waits.waitsFor a
  own : ∀ answer, result.2 = .done answer → result.1.waits.waitsFor txn = []

section

variable {α : Type} {mid : Pool} {permission : Permission} {waited : Bool}

theorem Disentangles.behind {result : Pool × Progress α} (later : Disentangles txn mid result)
    (others : ∀ a, a ≠ txn → mid.waits.waitsFor a = before.waits.waitsFor a) :
    Disentangles txn before result :=
  ⟨fun a other => (later.others a other).trans (others a other), later.own⟩

theorem Disentangles.same {result : Pool × Progress α} (later : Disentangles txn mid result)
    (same : mid.waits = before.waits) : Disentangles txn before result :=
  later.behind fun a _ => by rw [same]

/-- An attempt that does not wait leaves its transaction no edges if it was refused before, or if
there were none. -/
theorem attempt_edges (idle : waited = false → pool.waits.waitsFor txn = []) :
    Disentangles txn pool (pool.attempt txn page permission waited) := by
  rcases pool.attempt_cases txn page permission waited with
    ⟨asked, locks, _, same, eq⟩ | ⟨graph, _, blocks, eq⟩ | ⟨graph, _, blocks, eq⟩
  · rw [eq]
    have waits : (asked.load page).1.waits =
        if waited then pool.waits.clear txn else pool.waits := by
      rw [(asked.load_control page).waits, same]
    cases waited with
    | false => exact ⟨fun a _ => by rw [waits]; rfl, fun _ _ => by rw [waits]; exact idle rfl⟩
    | true =>
      refine ⟨fun a other => ?_, fun _ _ => ?_⟩
      · rw [waits, if_pos rfl, WaitForGraph.waitsFor_clear, if_neg other]
      · rw [waits, if_pos rfl, WaitForGraph.waitsFor_clear, if_pos rfl]
  · rw [eq]
    obtain rfl : (pool.waits.block txn (pool.locks.holderList page)).1 = graph := by rw [blocks]
    have victim := congrArg Prod.snd blocks
    refine ⟨fun a other => WaitForGraph.block_others other, fun _ _ => ?_⟩
    refine List.eq_nil_iff_forall_not_mem.mpr fun b edge => ?_
    exact ((WaitForGraph.mem_block_of_cycle victim txn b).mp edge).1 rfl
  · rw [eq]
    obtain rfl : (pool.waits.block txn (pool.locks.holderList page)).1 = graph := by rw [blocks]
    exact ⟨fun a other => WaitForGraph.block_others other, nofun⟩

theorem serve_edges (request : Waiting α)
    (idle : waited = false → pool.waits.waitsFor txn = [])
    (next : ∀ answer (mid : Pool), mid.waits.waitsFor txn = [] →
      Disentangles txn mid (mid.run txn (request.next answer))) :
    Disentangles txn pool (pool.serve txn request waited) := by
  have edges : Disentangles txn pool
      (pool.attempt txn request.page request.permission waited) := attempt_edges idle
  rw [serve_eq]
  generalize pool.attempt txn request.page request.permission waited = attempted at edges
  obtain ⟨mid, progress⟩ := attempted
  cases progress with
  | waiting request => exact ⟨edges.others, nofun⟩
  | done answer => exact (next answer mid (edges.own answer rfl)).behind edges.others

theorem run_edges (p : Program α) (pool : Pool) (idle : pool.waits.waitsFor txn = []) :
    Disentangles txn pool (pool.run txn p) := by
  induction p generalizing pool with
  | stop result => exact ⟨fun _ _ => rfl, fun _ _ => idle⟩
  | fetch page permission next ih =>
    rw [run_fetch]
    exact serve_edges _ (fun _ => idle) fun answer mid free => ih answer mid free
  | holds page next ih => exact ih _ pool idle
  | release page next ih => exact (ih (pool.releaseLock txn page) idle).same rfl
  | discard page next ih => exact (ih (pool.discard page) idle).same rfl
  | count store next ih => exact (ih _ (pool.countPages store).1 idle).same rfl
  | allocate store next ih => exact (ih _ (pool.allocatePage store).1 idle).same rfl
  | look ref next ih => exact ih _ pool idle
  | edit ref data next ih => exact (ih (pool.setObject ref _) idle).same rfl
  | spoil ref data next ih => exact (ih (pool.setObject ref _) idle).same rfl
  | make page next ih => exact (ih _ (pool.addObject page).1 idle).same rfl

/-- A transaction that begins a turn has no edges, or stands before a fetch that was refused. -/
def Resumable (txn : TransactionId) (waited : Bool) (p : Program α) (pool : Pool) : Prop :=
  (waited = false → pool.waits.waitsFor txn = []) ∧
  (waited = true → ∃ request : Waiting α,
    p = .fetch request.page request.permission request.next)

theorem Resumable.proceed {p : Program α} (idle : Resumable txn waited p pool) :
    Disentangles txn pool (pool.proceed txn waited p) := by
  cases waited with
  | false =>
    rw [proceed_run]
    exact run_edges p pool (idle.1 rfl)
  | true =>
    obtain ⟨request, rfl⟩ := idle.2 rfl
    exact serve_edges request nofun fun answer mid free => run_edges _ mid free

theorem advance_fetch (waited : Bool) (page : PageId) (permission : Permission)
    (next : Except PoolError PageRef → Program α) (pool : Pool) :
    pool.advance txn waited (.fetch page permission next) =
      match pool.attempt txn page permission waited with
      | (_, .waiting _) => none
      | (mid, .done answer) => some (next answer, mid) := by
  simp only [attempt, Pool.proceed, serve, Pool.advance]
  rcases pool.requestLock_cases txn page permission.mode waited with
    ⟨_, _, eq⟩ | ⟨_, _, eq⟩ | ⟨_, _, eq⟩
  · rw [eq]
    rfl
  · rw [eq]
    rfl
  · rw [eq]

theorem Resumable.own {p : Program α} (idle : Resumable txn waited p pool)
    (other : ∀ page permission next, p ≠ .fetch page permission next) :
    pool.waits.waitsFor txn = [] := by
  cases waited with
  | false => exact idle.1 rfl
  | true =>
    obtain ⟨request, same⟩ := idle.2 rfl
    exact absurd same (other _ _ _)

/-- A call that is answered leaves its transaction no edges. -/
theorem Resumable.advance {p q : Program α} (idle : Resumable txn waited p pool)
    (call : pool.advance txn waited p = some (q, mid)) : Resumable txn false q mid := by
  refine ⟨fun _ => ?_, nofun⟩
  cases p with
  | stop result => cases call
  | fetch page permission next =>
    have edges : Disentangles txn pool (pool.attempt txn page permission waited) :=
      attempt_edges idle.1
    rw [advance_fetch] at call
    generalize pool.attempt txn page permission waited = attempted at edges call
    obtain ⟨moved, progress⟩ := attempted
    cases progress with
    | waiting request => cases call
    | done answer =>
      cases call
      exact edges.own answer rfl
  | _ =>
    have free := idle.own nofun
    cases call
    exact free

theorem Resumable.leads {first last : Program α × Pool} (leads : Leads txn waited first last)
    (idle : Resumable txn waited first.1 first.2) (begun : waited = false) :
    Resumable txn false last.1 last.2 := by
  induction leads with
  | here =>
    subst begun
    exact idle
  | on call rest ih => exact ih (idle.advance call) rfl

/-- Where a turn comes by, and whether it has just begun with a request that was refused. -/
inductive Stands (txn : TransactionId) (waited : Bool) (begun : Program α × Pool) :
    Bool → Program α × Pool → Prop where
  | begins : Stands txn waited begun waited begun
  | later {first place : Program α × Pool}
    (call : begun.2.advance txn waited begun.1 = some first)
    (rest : Leads txn false first place) : Stands txn waited begun false place

theorem Stands.idle {begun place : Program α × Pool} {again : Bool}
    (stands : Stands txn waited begun again place) (idle : Resumable txn waited begun.1 begun.2) :
    Resumable txn again place.1 place.2 := by
  cases stands with
  | begins => exact idle
  | later call rest => exact Resumable.leads rest (idle.advance call) rfl

theorem Stands.bounded {begun place : Program α × Pool} {again : Bool}
    (stands : Stands txn waited begun again place) : Bounded begun.2 place.2 := by
  cases stands with
  | begins => exact .refl _
  | later call rest =>
    have retains : Retains (fun _ _ => True) begun.2 place.2 :=
      (Leads.on call rest).retains fun _ _ _ _ _ => trivial
    exact retains.bounded

/-- Adopting pages changes no edge. -/
theorem Disentangles.finish {result : Pool × Progress Answer}
    (edges : Disentangles txn before result) : Disentangles txn before (finish txn result) := by
  rcases finish_cases txn result with same | ⟨refs, answers, adopts, _⟩
  · rwa [same]
  · have waits : (Pool.finish txn result).1.waits = result.1.waits := by
      rw [adopts]
      exact (result.1.adopt_control txn refs).waits
    exact ⟨fun a other => by rw [waits]; exact edges.others a other,
      fun _ _ => by rw [waits]; exact edges.own _ answers⟩

/-- What an attempt does in a pool with a sound cache. -/
theorem attempted (sound : pool.cache.Sound)
    (idle : waited = false → pool.waits.waitsFor txn = []) :
    Attempted pool.cache.capacity txn page permission pool
      (pool.attempt txn page permission waited).1
      (∃ request, (pool.attempt txn page permission waited).2 = .waiting request)
      fun e => (pool.attempt txn page permission waited).2 = .done (.error e) := by
  have edges : Disentangles txn pool (pool.attempt txn page permission waited) :=
    attempt_edges idle
  rcases pool.attempt_cases txn page permission waited with
    ⟨asked, locks, granted, rfl, eq⟩ | ⟨graph, denied, _, eq⟩ | ⟨graph, denied, _, eq⟩
  · rw [eq] at edges ⊢
    refine ⟨edges.others, nofun, fun e told => ?_, fun _ n => ?_⟩
    · have failed := Progress.done.inj told
      obtain ⟨_, missed⟩ := load_missed (Prod.ext rfl failed)
      obtain ⟨keeps, control⟩ := missed.keeps
      refine ⟨keeps.relocked, edges.own _ rfl, Or.inr ⟨missed.not_deadlock, ?_, ?_⟩⟩
      · exact (LockTable.atLeast_acquired granted).congr (by rw [control.locks])
      · intro a q other
        rw [control.locks]
        exact LockTable.acquire_other granted other
    · rw [Progress.done.injEq]
      refine (load_exhausted_iff ?_ n).trans (and_congr_right fun _ => exhausted_relocked)
      exact sound
  · rw [eq] at edges ⊢
    refine ⟨edges.others, nofun, fun e told => ?_, fun asked => absurd denied asked⟩
    obtain rfl : .deadlock txn page = e := Except.error.inj (Progress.done.inj told)
    exact ⟨⟨rfl, rfl, media_of_same rfl rfl rfl⟩, edges.own _ rfl, Or.inl ⟨rfl, rfl⟩⟩
  · rw [eq] at edges ⊢
    exact ⟨edges.others, fun _ => ⟨graph, rfl⟩, nofun, fun asked => absurd denied asked⟩

end

end Pool

/-! ## Runs -/

namespace Interleaving

variable {s : Interleaving}

/-- Only a transaction that waits has edges, and a fetch that waits is still the same fetch. -/
structure Disentangled (s : Interleaving) : Prop where
  idle : ∀ txn, s.isSuspended txn = false → s.pool.waits.waitsFor txn = []
  fetching : ∀ r ∈ s.suspended,
    Pool.Fetches r.op (.fetch r.request.page r.request.permission r.request.next)

theorem disentangled_start (pool : Pool) (empty : pool.waits = .empty) :
    (start pool).Disentangled where
  idle txn _ := by
    show pool.waits.waitsFor txn = []
    rw [empty, WaitForGraph.waitsFor_empty]
  fetching _ listed := absurd listed List.not_mem_nil

/-- The program of a turn with a fetch is that fetch. -/
theorem Disentangled.call_fetches (disentangled : s.Disentangled) {action : Action} {call : Call}
    (takes : s.call? action = some call) : Pool.Fetches call.op call.program := by
  cases action with
  | call txn op =>
    simp only [call?] at takes
    split at takes
    · cases takes
    · cases takes
      exact s.pool.programOf_fetches op
  | retry txn =>
    obtain ⟨r, found, rfl⟩ := Option.map_eq_some_iff.mp takes
    exact disentangled.fetching r (mem_of_found found).1
  | flush txn => cases takes
  | flushAll cached => cases takes
  | finish txn ending => cases takes

theorem Disentangled.call_idle (disentangled : s.Disentangled) {action : Action} {call : Call}
    (takes : s.call? action = some call) :
    Pool.Resumable call.txn call.waited call.program s.pool := by
  cases action with
  | call txn op =>
    simp only [call?] at takes
    split at takes
    · cases takes
    next free =>
      cases takes
      exact ⟨fun _ => disentangled.idle txn (by simpa using free), fun waited => absurd waited (by simp)⟩
  | retry txn =>
    obtain ⟨r, found, rfl⟩ := Option.map_eq_some_iff.mp takes
    exact ⟨fun fresh => absurd fresh (by simp), fun _ => ⟨r.request, rfl⟩⟩
  | flush txn => cases takes
  | flushAll cached => cases takes
  | finish txn ending => cases takes

theorem Disentangled.call_edges (disentangled : s.Disentangled) {action : Action} {call : Call}
    (takes : s.call? action = some call) :
    Pool.Disentangles call.txn s.pool
      (Pool.finish call.txn (s.pool.proceed call.txn call.waited call.program)) :=
  (disentangled.call_idle takes).proceed.finish

/-- Who waited and takes no turn still waits. -/
theorem settle_suspended {txn a : TransactionId} {op : Operation} {log : List Event}
    {result : Pool × Progress Answer} (other : a ≠ txn) (waits : s.isSuspended a = true) :
    (settle (s.suspended.filter fun r => r.txn ≠ txn) log txn op result).isSuspended a = true := by
  obtain ⟨r, listed, rfl⟩ := (s.isSuspended_iff a).mp waits
  have kept : r ∈ s.suspended.filter fun r => r.txn ≠ txn :=
    List.mem_filter.mpr ⟨listed, by simpa using other⟩
  obtain ⟨pool, progress⟩ := result
  refine (isSuspended_iff _ _).mpr ⟨r, ?_, rfl⟩
  cases progress with
  | waiting request => exact List.mem_append_left _ kept
  | done answer => exact kept

theorem Disentangled.call (disentangled : s.Disentangled) {action : Action} {call : Call}
    (takes : s.call? action = some call) : (s.step action).Disentangled := by
  have edges := disentangled.call_edges takes
  have fetches := disentangled.call_fetches takes
  rw [step_call takes]
  constructor
  · intro a free
    rw [settle_pool]
    by_cases own : a = call.txn
    · subst own
      generalize Pool.finish call.txn (s.pool.proceed call.txn call.waited call.program) = result
        at edges free
      obtain ⟨after, progress⟩ := result
      cases progress with
      | waiting request => simp [isSuspended, settle] at free
      | done answer => exact edges.own answer rfl
    · rw [edges.others a own]
      refine disentangled.idle a (Bool.eq_false_iff.mpr fun waits => ?_)
      rw [settle_suspended own waits] at free
      cases free
  · intro r listed
    generalize ended : Pool.finish call.txn (s.pool.proceed call.txn call.waited call.program) =
      result at listed
    obtain ⟨after, progress⟩ := result
    cases progress with
    | done answer => exact disentangled.fetching r (mem_of_rest listed).1
    | waiting request =>
      rcases List.mem_append.mp listed with before | new
      · exact disentangled.fetching r (mem_of_rest before).1
      · rw [List.mem_singleton.mp new]
        exact fetches.waits (congrArg Prod.snd ended)

/-- Edges stay as they are, or all edges of a transaction are dropped. -/
def DropsEdges (before after : Pool) : Prop :=
  ∀ a, after.waits.waitsFor a = before.waits.waitsFor a ∨ after.waits.waitsFor a = []

theorem dropsEdges_of_same {before after : Pool} (same : after.waits = before.waits) :
    DropsEdges before after := fun a => Or.inl (by rw [same])

theorem DropsEdges.trans {a b c : Pool} (first : DropsEdges a b) (second : DropsEdges b c) :
    DropsEdges a c := fun txn => by
  rcases second txn with same | gone
  · rw [same]
    exact first txn
  · exact Or.inr gone

theorem dropsEdges_of_control {before moved after : Pool} {txn : TransactionId}
    (control : Pool.SameControl before moved) (ended : after = moved ∨ after = moved.letGo txn) :
    DropsEdges before after := by
  rcases ended with rfl | rfl
  · exact dropsEdges_of_same control.waits
  · intro a
    show (moved.waits.clear txn).waitsFor a = _ ∨ (moved.waits.clear txn).waitsFor a = []
    rw [WaitForGraph.waitsFor_clear, control.waits]
    by_cases own : a = txn
    · exact Or.inr (if_pos own)
    · exact Or.inl (if_neg own)

theorem ending_dropsEdges (pool : Pool) (txn : TransactionId) (ending : Ending) :
    DropsEdges pool (ending.run pool txn).1 := by
  have commits : ∀ pool : Pool, DropsEdges pool (pool.commit txn).1 := fun pool => by
    obtain ⟨moved, control, ended⟩ := pool.commit_control txn
    exact dropsEdges_of_control control ended
  have aborts : ∀ pool : Pool, DropsEdges pool (pool.abort txn).1 := fun pool => by
    obtain ⟨moved, control, ended⟩ := pool.abort_control txn
    exact dropsEdges_of_control control ended
  rcases Pool.ending_pool pool txn ending with eq | eq | eq
  · rw [eq]
    exact commits pool
  · rw [eq]
    exact aborts pool
  · rw [eq]
    exact (commits pool).trans (aborts _)

theorem Disentangled.change (disentangled : s.Disentangled) {after : Interleaving}
    (drops : DropsEdges s.pool after.pool) (suspended : after.suspended = s.suspended) :
    after.Disentangled where
  idle a free := by
    rcases drops a with same | gone
    · rw [same]
      refine disentangled.idle a ?_
      rw [← free, isSuspended, isSuspended, suspended]
    · exact gone
  fetching r listed := disentangled.fetching r (by rwa [← suspended])

theorem Disentangled.step (disentangled : s.Disentangled) (action : Action) :
    (s.step action).Disentangled := by
  cases takes : s.call? action with
  | some call => exact disentangled.call takes
  | none =>
    refine disentangled.change ?_ (step_suspended takes)
    cases action with
    | call txn op =>
      simp only [call?] at takes
      split at takes
      next waits =>
        rw [Interleaving.step, if_pos waits]
        exact dropsEdges_of_same rfl
      next => cases takes
    | retry txn =>
      simp only [call?, Option.map_eq_none_iff] at takes
      simp only [Interleaving.step, takes]
      exact dropsEdges_of_same rfl
    | flush txn =>
      rw [Interleaving.step]
      split
      · exact dropsEdges_of_same rfl
      · exact dropsEdges_of_same (s.pool.flushPages_control txn).waits
    | flushAll cached =>
      rw [Interleaving.step]
      split
      · exact dropsEdges_of_same (Pool.flushCached_control cached s.pool).waits
      · exact dropsEdges_of_same rfl
    | finish txn ending =>
      rw [Interleaving.step]
      split
      · exact dropsEdges_of_same rfl
      · exact ending_dropsEdges s.pool txn ending

theorem Disentangled.undergo (disentangled : s.Disentangled) (incident : Incident) :
    (s.undergo incident).Disentangled := by
  cases incident with
  | deed deed =>
    cases deed with
    | act action => exact disentangled.step action
    | write ref start new =>
      simp only [Interleaving.undergo, Interleaving.handle]
      split
      · exact disentangled.change (dropsEdges_of_same rfl) rfl
      · exact disentangled
    | mark ref dirtier => exact disentangled.change (dropsEdges_of_same rfl) rfl
    | release txn page => exact disentangled.change (dropsEdges_of_same rfl) rfl
    | discard page => exact disentangled.change (dropsEdges_of_same rfl) rfl
  | store store => exact disentangled.change (dropsEdges_of_same rfl) rfl
  | register name table => exact disentangled.change (dropsEdges_of_same rfl) rfl
  | remove table => exact disentangled.change (dropsEdges_of_same rfl) rfl

theorem Disentangled.undergoAll (disentangled : s.Disentangled) (incidents : List Incident) :
    (s.undergoAll incidents).Disentangled := by
  induction incidents generalizing s with
  | nil => exact disentangled
  | cons incident rest ih => exact ih (disentangled.undergo incident)

/-- An answered page is not a changed one. -/
theorem finish_page (txn : TransactionId) (pool : Pool) (answer : Except PoolError PageRef) :
    Pool.finish txn (pool, .done (answer.map .page)) = (pool, .done (answer.map .page)) := by
  cases answer <;> rfl

/-- The log tells that a fetch has failed exactly when it has. -/
theorem told_failed_iff {others : List Suspension} {log : List Event} {txn : TransactionId}
    {op : Operation} {pool : Pool} {answer : Except PoolError PageRef} {e : PoolError} :
    (settle others log txn op (pool, .done (answer.map .page))).log =
      .answered txn op (.error e) :: log ↔ answer = .error e := by
  cases answer with
  | ok ref => simp [settle, Except.map]
  | error cause => simp [settle, Except.map]

theorem settle_done_free (s : Interleaving) (log : List Event) (txn : TransactionId)
    (op : Operation) (pool : Pool) (answer : Except PoolError Answer) :
    (settle (s.suspended.filter fun r => r.txn ≠ txn) log txn op
      (pool, .done answer)).isSuspended txn = false := by
  refine Bool.eq_false_iff.mpr fun waits => ?_
  obtain ⟨r, listed, same⟩ := (isSuspended_iff _ _).mp waits
  exact (mem_of_rest listed).2 same

/-- A turn of a fetch is one attempt. -/
theorem Disentangled.fetch_attempted (disentangled : s.Disentangled)
    (sound : s.pool.cache.Sound) {action : Action} {call : Call} {page : PageId}
    {permission : Permission} (takes : s.call? action = some call)
    (fetches : call.op = .fetch page permission) :
    Pool.Attempted s.pool.cache.capacity call.txn page permission s.pool (s.step action).pool
      ((s.step action).isSuspended call.txn = true)
      fun e => (s.step action).log = .answered call.txn call.op (.error e) :: s.log := by
  have idle := disentangled.call_idle takes
  obtain ⟨next, program, stops⟩ := disentangled.call_fetches takes page permission fetches
  have attempted : Pool.Attempted s.pool.cache.capacity call.txn page permission s.pool
      (s.pool.attempt call.txn page permission call.waited).1 _ _ := Pool.attempted sound idle.1
  rw [step_call takes, program, Pool.proceed, Pool.serve_eq]
  generalize s.pool.attempt call.txn page permission call.waited = result at attempted
  obtain ⟨after, progress⟩ := result
  rw [settle_pool]
  cases progress with
  | waiting request =>
    refine attempted.congr (fun _ => ⟨request, rfl⟩) fun e => iff_of_false (fun told => ?_) ?_
    · exact absurd told (List.cons_ne_self _ _).symm
    · intro same
      cases same
  | done answer =>
    have ended : Pool.finish call.txn (Pool.goOn call.txn ⟨page, permission, next⟩
        (after, .done answer)) = (after, .done (answer.map .page)) := by
      simp only [Pool.goOn]
      rw [stops, Pool.run]
      exact finish_page ..
    rw [ended]
    refine attempted.congr (fun suspended => ?_) fun e => ?_
    · rw [settle_done_free] at suspended
      cases suspended
    · rw [told_failed_iff, Progress.done.injEq]

/-- Whatever the tables do and whatever happened before, an attempt to fetch a page that waits or
fails leaves the pages, the queue and the stores as they were: in a turn of a fetch, and wherever
another operation comes to stand before a fetch in its turn. -/
theorem failed_fetch_changes_no_page {config : Config} {catalog : Catalog Table}
    {stores : Array Store} {objects : Array Page} {pool : Pool}
    (created : Pool.create config catalog stores objects = .ok pool) (incidents : List Incident)
    (reached : Interleaving) (reaches : (start pool).undergoAll incidents = reached)
    {action : Action} {call : Call} (takes : reached.call? action = some call) :
    (∀ page permission, call.op = .fetch page permission →
      Pool.Attempted config.capacity call.txn page permission reached.pool
        (reached.step action).pool ((reached.step action).isSuspended call.txn = true)
        fun e => (reached.step action).log =
          .answered call.txn call.op (.error e) :: reached.log) ∧
    ∀ again page permission next mid,
      Pool.Stands call.txn call.waited (call.program, reached.pool) again
        (.fetch page permission next, mid) →
      Pool.Attempted config.capacity call.txn page permission mid
        (mid.attempt call.txn page permission again).1
        (∃ request, (mid.attempt call.txn page permission again).2 = .waiting request)
        fun e => (mid.attempt call.txn page permission again).2 = .done (.error e) := by
  obtain ⟨_, rfl⟩ := Pool.create_eq_ok created
  have tame : (start ⟨config, catalog, stores, objects, .empty, .empty,
      .empty config.capacity⟩).Tame := fun _ listed => absurd listed List.not_mem_nil
  obtain ⟨_, sound, capacity⟩ := tame.undergoAll (Cache.sound_empty config.capacity) incidents
  have disentangled := (disentangled_start ⟨config, catalog, stores, objects, .empty, .empty,
    .empty config.capacity⟩ rfl).undergoAll incidents
  rw [reaches] at sound capacity disentangled
  have capacity : reached.pool.cache.capacity = config.capacity := capacity
  constructor
  · intro page permission fetches
    rw [← capacity]
    exact disentangled.fetch_attempted sound takes fetches
  · intro again page permission next mid stands
    have bounded := stands.bounded
    have idle := stands.idle (disentangled.call_idle takes)
    rw [← capacity, ← bounded.capacity]
    exact Pool.attempted (bounded.sound sound) idle.1

/-- A store in memory with three blank pages of 64 bytes, all of whose calls get through. -/
def blankTriple : Store := .reliable (.memory ⟨⟨1⟩, 64, Array.replicate 3 (Bytes.zeros 64)⟩)

/-- A transaction fetches two pages and makes both dirty. -/
def crowd : List Incident :=
  [.deed (.act (.call ⟨1⟩ (.fetch ⟨⟨1⟩, 0⟩ .readWrite))),
    .deed (.act (.call ⟨1⟩ (.fetch ⟨⟨1⟩, 1⟩ .readWrite))),
    .deed (.mark ⟨0⟩ (some ⟨1⟩)), .deed (.mark ⟨1⟩ (some ⟨1⟩))]

/-- A cache of two is full of them. Another transaction is refused a third page, after the queue has
gone round once, and the cache is as before. -/
theorem crowded_fetch_changes_no_page : ∃ pool reached,
    Pool.create (Config.sized 2 64) (Catalog.single "a" blankTriple.medium) #[blankTriple] #[] =
      .ok pool ∧
    (start pool).undergoAll crowd = reached ∧
    reached.call? (.call ⟨2⟩ (.fetch ⟨⟨1⟩, 2⟩ .readOnly)) =
      some ⟨⟨2⟩, .fetch ⟨⟨1⟩, 2⟩ .readOnly, false,
        reached.pool.programOf (.fetch ⟨⟨1⟩, 2⟩ .readOnly)⟩ ∧
    (reached.step (.call ⟨2⟩ (.fetch ⟨⟨1⟩, 2⟩ .readOnly))).log =
      .answered ⟨2⟩ (.fetch ⟨⟨1⟩, 2⟩ .readOnly) (.error (.evictionExhausted 2)) :: reached.log ∧
    reached.pool.cache.order = [⟨⟨1⟩, 0⟩, ⟨⟨1⟩, 1⟩] ∧
    (reached.step (.call ⟨2⟩ (.fetch ⟨⟨1⟩, 2⟩ .readOnly))).pool.cache = reached.pool.cache := by
  have created : Pool.create (Config.sized 2 64) (Catalog.single "a" blankTriple.medium)
    #[blankTriple] #[] = .ok _ := rfl
  have attempts := failed_fetch_changes_no_page created crowd _ rfl
    (rfl : call? _ (.call ⟨2⟩ (.fetch ⟨⟨1⟩, 2⟩ .readOnly)) = some _)
  have attempted := attempts.1 ⟨⟨1⟩, 2⟩ .readOnly rfl
  exact ⟨_, _, created, rfl, rfl, by decide +kernel, by decide +kernel,
    (attempted.failed (.evictionExhausted 2) (by decide +kernel)).1.cache⟩

end Interleaving

end TransactionalPages
