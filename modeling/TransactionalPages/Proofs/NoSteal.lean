import TransactionalPages.Proofs.Handling
import TransactionalPages.Proofs.Retention
import TransactionalPages.Proofs.Turn

/-!
# No page is stolen

Tables, which are programs here, come and go while operations wait for locks, and
page objects are written to and tagged behind the pool's back. Through all that
the cache stays within its capacity, and a dirty page leaves it only if it is
dropped, or could not be rolled back, or another object takes its name. Stores
are written to by commits and flushes only.
-/

namespace TransactionalPages

/-! ## Incidents -/

/-- What happens to a pool: a deed, or a change of the stores and tables that it serves. -/
inductive Incident where
  | deed (deed : Deed)
  /-- A new store, which a table may then be registered over. -/
  | store (store : Store)
  | register (name : String) (table : Table)
  | remove (table : TableId)

/-- Whether pages are written to their stores. -/
def Incident.forces : Incident → Bool
  | .deed (.act (.flush _)) => true
  | .deed (.act (.flushAll _)) => true
  | .deed (.act (.finish _ .commit)) => true
  | .deed (.act (.finish _ .close)) => true
  | _ => false

/-- The pool in which an ending begins to roll its transaction back, if it does. -/
def Ending.rollsBack? (ending : Ending) (pool : Pool) (txn : TransactionId) : Option Pool :=
  match ending with
  | .commit => none
  | .close =>
    match pool.commit txn with
    | (_, .ok ()) => none
    | (pool, .error _) => some pool
  | .abort => some pool
  | .drop => some pool

namespace Interleaving

variable {s : Interleaving} {page : PageId} {ref : PageRef}

def undergo (s : Interleaving) : Incident → Interleaving
  | .deed deed => s.handle deed
  | .store store => { s with pool := (s.pool.addStore store).1 }
  | .register name table =>
    { s with pool := { s.pool with catalog := s.pool.catalog.add name table.id table } }
  | .remove table => { s with pool := { s.pool with catalog := (s.pool.catalog.remove table).1 } }

def undergoAll (s : Interleaving) (incidents : List Incident) : Interleaving := incidents.foldl undergo s

/-- A turn that an operation is about to take. -/
structure Call where
  txn : TransactionId
  op : Operation
  /-- Whether the program stands before a fetch that was refused. -/
  waited : Bool
  program : Program Answer

/-- The turn that an action gives to an operation, if it does. -/
def call? (s : Interleaving) : Action → Option Call
  | .call txn op =>
    if s.isSuspended txn then none else some ⟨txn, op, false, s.pool.programOf op⟩
  | .retry txn =>
    (s.suspended.find? fun r => r.txn = txn).map fun r =>
      ⟨txn, r.op, true, .fetch r.request.page r.request.permission r.request.next⟩
  | _ => none

/-- How a cached page can be lost to an incident. -/
inductive Loses (s : Interleaving) (page : PageId) (ref : PageRef) : Incident → Prop where
  | discarded : Loses s page ref (.deed (.discard page))
  /-- Its transaction was rolled back, and the page could not be restored. -/
  | unrestored {txn : TransactionId} {ending : Ending} {base : Pool}
    (rolls : ending.rollsBack? s.pool txn = some base)
    (fails : base.FailsToRestore txn (base.locks.pagesHeldBy txn) page) :
    Loses s page ref (.deed (.act (.finish txn ending)))
  /-- The table that was to be changed has dropped the page. -/
  | dropped {action : Action} {call : Call} {table : TableId} {mutation : Mutation}
    {next : Program Answer} {mid : Pool} (takes : s.call? action = some call)
    (mutates : call.op = .mutate table mutation)
    (drops : Pool.Leads call.txn call.waited (call.program, s.pool) (.discard page next, mid)) :
    Loses s page ref (.deed (.act action))
  /-- The table that was changed has answered with another page of that name. -/
  | replaced {action : Action} {call : Call} {table : TableId} {mutation : Mutation}
    {refs : List PageRef} {other : PageRef} {mid : Pool} (takes : s.call? action = some call)
    (mutates : call.op = .mutate table mutation)
    (answers : s.pool.proceed call.txn call.waited call.program = (mid, .done (.ok (.changed refs))))
    (among : other ∈ refs) (differs : other ≠ ref) (named : (mid.object other).id = page) :
    Loses s page ref (.deed (.act action))

/-- An operation that only reads still does when it is taken up. -/
def Tame (s : Interleaving) : Prop :=
  ∀ r ∈ s.suspended, (∀ table mutation, r.op ≠ .mutate table mutation) →
    (Program.fetch r.request.page r.request.permission r.request.next).Reads
      fun answer => ∀ refs, answer ≠ .changed refs

/-- A turn with a program, after which the operation waits or has ended. -/
theorem step_call {action : Action} {call : Call} (takes : s.call? action = some call) :
    s.step action = settle (s.suspended.filter fun r => r.txn ≠ call.txn) s.log call.txn call.op
      (Pool.finish call.txn (s.pool.proceed call.txn call.waited call.program)) := by
  cases action with
  | call txn op =>
    simp only [call?] at takes
    split at takes
    · cases takes
    next free =>
      cases takes
      have others : (s.suspended.filter fun r => r.txn ≠ txn) = s.suspended :=
        List.filter_eq_self.mpr fun r listed => by
          simpa using fun same => free ((s.isSuspended_iff txn).mpr ⟨r, listed, same⟩)
      rw [Interleaving.step, if_neg free, Pool.submit, Pool.proceed_run, others]
  | retry txn =>
    simp only [call?] at takes
    cases found : s.suspended.find? fun r => r.txn = txn with
    | none =>
      rw [found] at takes
      cases takes
    | some r =>
      rw [found] at takes
      cases takes
      simp only [Interleaving.step, found]
      rfl
  | flush txn => cases takes
  | flushAll cached => cases takes
  | finish txn ending => cases takes

/-- An action that gives no turn to an operation leaves what waits as it is. -/
theorem step_suspended {action : Action} (idle : s.call? action = none) :
    (s.step action).suspended = s.suspended := by
  cases action with
  | call txn op =>
    simp only [call?] at idle
    split at idle
    next waits => rw [Interleaving.step, if_pos waits]
    next => cases idle
  | retry txn =>
    simp only [call?, Option.map_eq_none_iff] at idle
    simp only [Interleaving.step, idle]
  | flush txn =>
    rw [Interleaving.step]
    split <;> rfl
  | flushAll cached =>
    rw [Interleaving.step]
    split <;> rfl
  | finish txn ending =>
    rw [Interleaving.step]
    split <;> rfl

/-- An action that gives no turn to an operation passes, or writes back, or ends a transaction. -/
theorem step_idle {action : Action} (idle : s.call? action = none) :
    (s.step action).pool = s.pool ∨
    (∃ txn, action = .flush txn ∧ (s.step action).pool = (s.pool.flushPages txn).1) ∨
    (∃ cached, action = .flushAll cached ∧
      (s.step action).pool = (s.pool.flushAll cached).1) ∨
    (∃ txn ending, action = .finish txn ending ∧
      (s.step action).pool = (ending.run s.pool txn).1) := by
  cases action with
  | call txn op =>
    simp only [call?] at idle
    split at idle
    next waits =>
      rw [Interleaving.step, if_pos waits]
      exact Or.inl rfl
    next => cases idle
  | retry txn =>
    simp only [call?, Option.map_eq_none_iff] at idle
    exact Or.inl (by simp only [Interleaving.step, idle])
  | flush txn =>
    rw [Interleaving.step]
    split
    · exact Or.inl rfl
    · exact Or.inr (Or.inl ⟨txn, rfl, rfl⟩)
  | flushAll cached =>
    rw [Interleaving.step]
    split
    · exact Or.inr (Or.inr (Or.inl ⟨cached, rfl, rfl⟩))
    · exact Or.inl rfl
  | finish txn ending =>
    rw [Interleaving.step]
    split
    · exact Or.inl rfl
    · exact Or.inr (Or.inr (Or.inr ⟨txn, ending, rfl, rfl⟩))

theorem Tame.call_reads (tame : s.Tame) {action : Action} {call : Call}
    (takes : s.call? action = some call)
    (reading : ∀ table mutation, call.op ≠ .mutate table mutation) :
    call.program.Reads fun answer => ∀ refs, answer ≠ .changed refs := by
  cases action with
  | call txn op =>
    simp only [call?] at takes
    split at takes
    · cases takes
    · cases takes
      exact s.pool.programOf_reads reading
  | retry txn =>
    obtain ⟨r, found, rfl⟩ := Option.map_eq_some_iff.mp takes
    exact tame r (List.mem_of_find?_eq_some found) reading
  | flush txn => cases takes
  | flushAll cached => cases takes
  | finish txn ending => cases takes

theorem finish_waiting {txn : TransactionId} {result : Pool × Progress Answer}
    {request : Waiting Answer} (waits : (Pool.finish txn result).2 = .waiting request) :
    result.2 = .waiting request := by
  rcases Pool.finish_cases txn result with same | ⟨refs, _, _, answers | ⟨e, fails⟩⟩
  · rwa [same] at waits
  · rw [answers] at waits
    cases waits
  · rw [fails] at waits
    cases waits

theorem Tame.step (tame : s.Tame) (action : Action) : (s.step action).Tame := by
  cases takes : s.call? action with
  | none =>
    intro r listed
    rw [step_suspended takes] at listed
    exact tame r listed
  | some call =>
    have apart : ∀ r ∈ s.suspended.filter fun r => r.txn ≠ call.txn, r ∈ s.suspended :=
      fun r listed => (mem_of_rest listed).1
    rw [step_call takes]
    intro r listed reading
    generalize ended : Pool.finish call.txn (s.pool.proceed call.txn call.waited call.program) =
      result at listed
    obtain ⟨after, progress⟩ := result
    cases progress with
    | done answer => exact tame r (apart r listed) reading
    | waiting request =>
      rcases List.mem_append.mp listed with before | new
      · exact tame r (apart r before) reading
      · obtain rfl := List.mem_singleton.mp new
        have waits := finish_waiting (congrArg Prod.snd ended)
        obtain ⟨q, last, _, leads, _, rests⟩ :=
          Pool.proceed_halts call.txn call.waited call.program s.pool
        rw [waits] at rests
        cases rests
        exact leads.reads (tame.call_reads takes reading)

theorem Tame.handle (tame : s.Tame) (deed : Deed) : (s.handle deed).Tame := by
  cases deed with
  | act action => exact tame.step action
  | write ref start new =>
    simp only [Interleaving.handle]
    split <;> exact tame
  | _ => exact tame

theorem Tame.undergo (tame : s.Tame) (c : Incident) : (s.undergo c).Tame := by
  cases c with
  | deed deed => exact tame.handle deed
  | _ => exact tame

/-! ## What an incident keeps -/

/-- The cache stays bounded, a dirty page leaves it in the known ways only, and stores are written
to by commits and flushes only. -/
structure Keeps (s : Interleaving) (c : Incident) (after : Pool) : Prop where
  bounded : Pool.Bounded s.pool after
  cached : ∀ page ref, s.pool.cache.peek? page = some ref →
    (s.pool.object ref).isDirty = true →
    after.cache.peek? page = some ref ∨ s.Loses page ref c
  stored : c.forces = false → Pool.KeepsStored s.pool after

variable {c : Incident} {after : Pool}

theorem keeps_of_retains
    (retains : Pool.Retains (fun page ref => s.Loses page ref c) s.pool after) : s.Keeps c after := by
  refine ⟨retains.bounded, fun page ref held dirty => ?_, fun _ => retains.stored⟩
  by_cases lost : s.Loses page ref c
  · exact Or.inr lost
  · exact Or.inl (retains.drafts page ref held dirty lost)

theorem keeps_of_cache (cache : after.cache = s.pool.cache)
    (stored : c.forces = false → Pool.KeepsStored s.pool after) : s.Keeps c after :=
  ⟨Pool.bounded_of_cache cache, fun page ref held _ => Or.inl (by rwa [cache]), stored⟩

theorem keeps_self : s.Keeps c s.pool := keeps_of_cache rfl fun _ _ _ _ => id

theorem Tame.call_keeps (tame : s.Tame) {action : Action} {call : Call}
    (takes : s.call? action = some call) :
    s.Keeps (.deed (.act action)) (s.step action).pool := by
  rw [step_call takes, settle_pool]
  apply keeps_of_retains
  obtain ⟨q, last, _, leads, _, rests⟩ :=
    Pool.proceed_halts call.txn call.waited call.program s.pool
  by_cases mutates : ∃ table mutation, call.op = .mutate table mutation
  · obtain ⟨table, mutation, mutates⟩ := mutates
    refine (Pool.proceed_retains call.waited call.program s.pool ?_).trans
      (Pool.finish_retains _ ?_)
    · intro page next mid drops ref
      exact .dropped takes mutates drops
    · intro refs answers other among ref differs
      exact .replaced takes mutates (Prod.ext rfl answers) among (Ne.symm differs) rfl
  · have reading : ∀ table mutation, call.op ≠ .mutate table mutation :=
      fun table mutation same => mutates ⟨table, mutation, same⟩
    have reads := tame.call_reads takes reading
    refine (Pool.proceed_retains call.waited call.program s.pool ?_).trans
      (Pool.finish_retains _ ?_)
    · intro page next mid drops
      cases drops.reads reads
    · intro refs answers
      rw [answers] at rests
      cases rests
      cases leads.reads reads with
      | stop fits => exact absurd rfl (fits _ rfl refs)

theorem abort_keeps {txn : TransactionId} {ending : Ending} {base : Pool}
    (rolls : ending.rollsBack? s.pool txn = some base) (cache : base.cache = s.pool.cache)
    (stored : (Incident.deed (.act (.finish txn ending))).forces = false →
      Pool.KeepsStored s.pool base) :
    s.Keeps (.deed (.act (.finish txn ending))) (base.abort txn).1 := by
  obtain ⟨bounded, still, kept⟩ := base.abort_keeps txn
  refine ⟨(Pool.bounded_of_cache cache).trans bounded, fun page ref held _ => ?_,
    fun calm => (stored calm).trans still⟩
  rw [← cache] at held
  rcases kept page ref held with same | fails
  · exact Or.inl same
  · exact Or.inr (.unrestored rolls fails)

theorem ending_keeps (s : Interleaving) (txn : TransactionId) (ending : Ending) :
    s.Keeps (.deed (.act (.finish txn ending))) (ending.run s.pool txn).1 := by
  cases ending with
  | commit => exact keeps_of_cache (s.pool.commit_cache txn) (fun calm => by cases calm)
  | close =>
    simp only [Ending.run]
    rcases s.pool.commitHandle_cases txn with ⟨_, eq⟩ | ⟨e, _, failed, eq, _⟩
    · rw [eq]
      exact keeps_of_cache (s.pool.commit_cache txn) (fun calm => by cases calm)
    · rw [eq]
      refine abort_keeps ?_ (s.pool.commit_cache txn) (fun calm => by cases calm)
      simp only [Ending.rollsBack?]
      cases committed : s.pool.commit txn with
      | mk mid answer =>
        rw [committed] at failed
        obtain rfl : answer = .error e := failed
        rfl
  | abort => exact abort_keeps rfl rfl fun _ _ _ _ => id
  | drop =>
    simp only [Ending.run]
    rw [Pool.dropHandle_pool]
    exact abort_keeps rfl rfl fun _ _ _ _ => id

theorem Tame.step_keeps (tame : s.Tame) (action : Action) :
    s.Keeps (.deed (.act action)) (s.step action).pool := by
  cases takes : s.call? action with
  | some call => exact tame.call_keeps takes
  | none =>
    rcases step_idle takes with
      same | ⟨txn, rfl, eq⟩ | ⟨cached, rfl, eq⟩ | ⟨txn, ending, rfl, eq⟩
    · rw [same]
      exact keeps_self
    · rw [eq]
      exact keeps_of_cache (Pool.flushEach_cache ..) (fun calm => by cases calm)
    · rw [eq]
      exact keeps_of_cache (Pool.flushCached_cache ..) (fun calm => by cases calm)
    · rw [eq]
      exact s.ending_keeps txn ending

theorem Tame.undergo_keeps (tame : s.Tame) (c : Incident) : s.Keeps c (s.undergo c).pool := by
  have same : ∀ {after : Pool}, Pool.SameMedia s.pool after → after.cache = s.pool.cache →
      s.Keeps c after := fun media cache => keeps_of_cache cache fun _ => media.keepsStored
  cases c with
  | deed deed =>
    cases deed with
    | act action => exact tame.step_keeps action
    | write ref start new =>
      simp only [Interleaving.undergo, Interleaving.handle]
      split
      · exact same (Pool.setObject_media ..) rfl
      · exact keeps_self
    | mark ref dirtier => exact same (Pool.setObject_media ..) rfl
    | release txn page => exact same (Pool.media_of_same rfl rfl rfl) rfl
    | discard page =>
      exact keeps_of_retains (Pool.discard_retains s.pool page fun _ => .discarded)
  | store store => exact keeps_of_cache rfl fun _ => s.pool.addStore_keepsStored store
  | register name table => exact keeps_of_cache rfl fun _ _ _ _ => id
  | remove table => exact keeps_of_cache rfl fun _ _ _ _ => id

theorem Tame.undergoAll (tame : s.Tame) (sound : s.pool.cache.Sound) (incidents : List Incident) :
    (s.undergoAll incidents).Tame ∧ (s.undergoAll incidents).pool.cache.Sound ∧
      (s.undergoAll incidents).pool.cache.capacity = s.pool.cache.capacity := by
  induction incidents generalizing s with
  | nil => exact ⟨tame, sound, rfl⟩
  | cons c rest ih =>
    have bounded := (tame.undergo_keeps c).bounded
    obtain ⟨tameRest, soundRest, capacity⟩ := ih (tame.undergo c) (bounded.sound sound)
    exact ⟨tameRest, soundRest, capacity.trans bounded.capacity⟩

/-- Whatever the programs of the tables are and whatever happened before, the cache is within its
capacity, and in whatever happens next no dirty page is evicted and no stored page is written unless
it is asked for. -/
theorem dirty_pages_stay_cached {config : Config} {catalog : Catalog Table} {stores : Array Store}
    {objects : Array Page} {pool : Pool}
    (created : Pool.create config catalog stores objects = .ok pool) (incidents : List Incident)
    (reached : Interleaving) (reaches : (start pool).undergoAll incidents = reached) :
    reached.pool.cache.size ≤ config.capacity ∧ ∀ next : Incident,
      (∀ page ref, reached.pool.cache.peek? page = some ref →
        (reached.pool.object ref).isDirty = true →
        (reached.undergo next).pool.cache.peek? page = some ref ∨ reached.Loses page ref next) ∧
      (next.forces = false → ∀ store page stored,
        (reached.pool.store store).medium.read page = .ok stored →
        ((reached.undergo next).pool.store store).medium.read page = .ok stored) := by
  obtain ⟨_, rfl⟩ := Pool.create_eq_ok created
  have tame : (start ⟨config, catalog, stores, objects, .empty, .empty,
      .empty config.capacity⟩).Tame := fun _ listed => absurd listed List.not_mem_nil
  obtain ⟨tame, sound, capacity⟩ := tame.undergoAll (Cache.sound_empty config.capacity) incidents
  rw [reaches] at tame sound capacity
  constructor
  · calc reached.pool.cache.size
        = reached.pool.cache.order.length := sound.size_eq
      _ ≤ reached.pool.cache.capacity := sound.within
      _ = config.capacity := capacity
  · intro next
    have keeps := tame.undergo_keeps next
    exact ⟨keeps.cached, keeps.stored⟩

end Interleaving

end TransactionalPages
