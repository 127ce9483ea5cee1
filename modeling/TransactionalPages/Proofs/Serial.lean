import TransactionalPages.Proofs.Alone

/-!
# Serial equivalence

Interleaved transactions that fetch pages to read them, read tuples and delete
them are answered as if the committed ones ran one after another, in the order of
their commits. Of every open transaction the calls so far are a replay against
what the stores serve now, because it holds the pages that it has asked for and
nobody else can commit a change to them. So it can be run alone at the time of its
commit, on a pool in which those that were committed before ran alone.
-/

namespace TransactionalPages

/-- Calls are accesses to registered tables, and pages are written back by commits only. -/
def Action.Accesses (catalog : Catalog Table) : Action → Prop
  | .call _ op => ∃ a : Access, op = a.operation ∧ (catalog.file? a.table).isSome
  | .retry _ => True
  | .flush _ => False
  | .flushAll _ => False
  | .finish _ _ => True

/-- A suspended operation is an access that waits for its page. -/
def Suspension.Awaits (catalog : Catalog Table) (r : Suspension) : Prop :=
  ∃ a : Access, r.op = a.operation ∧ r.request = ⟨a.page, a.permission, a.rest⟩ ∧
    a.page.table = a.table ∧ (catalog.file? a.table).isSome

/-- The calls of a transaction are a replay against what is served, and it holds their pages. -/
def Tracked (pool : Pool) (log : List Event) (txn : TransactionId) : Prop :=
  ∃ calls : List (Access × Except PoolError Reply),
    Serial.performed txn log = calls.map (fun c => (c.1.operation, c.2)) ∧
    (∀ c ∈ calls, (pool.catalog.file? c.1.table).isSome) ∧
    (∀ c ∈ calls, c.1.page.table = c.1.table → pool.locks.holds txn c.1.page) ∧
    Replay pool.config.capacity txn pool.served calls (pool.view.wrote txn)

/-- The committed transactions of a log can run one after another, and bring the media to where
they are. -/
def Mirrored (origin pool : Pool) (log : List Event) : Prop :=
  ∃ other : Pool,
    (Interleaving.start origin).run (Serial.actions log) = ⟨other, [], Serial.events log⟩ ∧
    other.Steady ∧ other.Idle ∧ other.config = pool.config ∧ other.catalog = pool.catalog ∧
    other.media = pool.media

variable {origin before after pool : Pool} {txn b : TransactionId} {page : PageId} {a : Access}
  {log : List Event}

theorem Tracked.stays {later : List Event} (tracked : Tracked before log b)
    (tables : Pool.SameTables before after)
    (performed : Serial.performed b later = Serial.performed b log)
    (kept : ∀ page, before.locks.holds b page → after.locks.holds b page)
    (served : ∀ page, before.locks.holds b page → after.served page = before.served page)
    (wrote : after.view.wrote b = before.view.wrote b) : Tracked after later b := by
  obtain ⟨calls, same, known, held, replay⟩ := tracked
  refine ⟨calls, performed.trans same, ?_, fun c listed own => kept _ (held c listed own), ?_⟩
  · rw [tables.catalog]
    exact known
  · rw [tables.config, wrote]
    exact replay.congr fun c listed own => served _ (held c listed own)

/-- A transaction that has just begun has no calls. -/
theorem Tracked.fresh (performed : Serial.performed txn log = [])
    (clean : pool.view.wrote txn = fun _ => none) : Tracked pool log txn := by
  refine ⟨[], performed, fun c listed => absurd listed List.not_mem_nil,
    fun c listed => absurd listed List.not_mem_nil, ?_⟩
  rw [clean]
  exact .nil

theorem Mirrored.stays {later : List Event} (mirrored : Mirrored origin before log)
    (media : Pool.SameMedia before after) (actions : Serial.actions later = Serial.actions log)
    (events : Serial.events later = Serial.events log) : Mirrored origin after later := by
  obtain ⟨other, ran, steady, idle, config, catalog, same⟩ := mirrored
  refine ⟨other, ?_, steady, idle, config.trans media.config.symm,
    catalog.trans media.catalog.symm, same.trans media.media.symm⟩
  rw [actions, events]
  exact ran

namespace Pool

/-- Whoever has a draft of a page that a transaction holds after an access is that transaction. -/
theorem Beside.owner (beside : Beside txn a before after) (coherent : before.Coherent)
    (held : after.locks.holds txn page) {owner : TransactionId} {data : Bytes}
    (draft : before.draft? page = some (owner, data)) : owner = txn := by
  by_cases same : owner = txn
  · exact same
  · have exclusive : after.locks.mode? owner page = some .exclusive := by
      rw [beside.others owner page same]
      exact coherent.owner draft
    exact (beside.coherent.locks.alone page owner txn exclusive held).symm

end Pool

/-! ## Accesses -/

/-- An access of another transaction changes nothing for a transaction. -/
theorem Tracked.access_other {later : List Event} (tracked : Tracked before log b)
    (beside : Pool.Beside txn a before after) (differ : b ≠ txn)
    (performed : Serial.performed b later = Serial.performed b log)
    (wrote : after.view.wrote b = before.view.wrote b) : Tracked after later b := by
  refine tracked.stays beside.media.toSameTables performed ?_ ?_ wrote
  · intro page held
    rw [LockTable.holds_congr (beside.others b page differ)]
    exact held
  · intro page _
    rw [Pool.served_of_media beside.media]

/-- An access that is not performed changes nothing for its transaction either. -/
theorem Tracked.access_quiet {later : List Event} (tracked : Tracked before log b)
    (beside : Pool.Beside txn a before after)
    (performed : Serial.performed b later = Serial.performed b log)
    (view : after.view = before.view) : Tracked after later b := by
  have wrote : after.view.wrote b = before.view.wrote b := by rw [view]
  by_cases mine : b = txn
  · subst mine
    refine tracked.stays beside.media.toSameTables performed beside.kept ?_ wrote
    intro page _
    rw [Pool.served_of_media beside.media]
  · exact tracked.access_other beside mine performed wrote

/-- A performed access is one more call of its transaction. -/
theorem Tracked.access_self (tracked : Tracked before log txn) (coherent : before.Coherent)
    (beside : Pool.Beside txn a before after) (known : (before.catalog.file? a.table).isSome)
    {reply : Except PoolError Reply} {change : Option Bytes}
    (performs : Serial.performs reply = true)
    (performed : a.perform txn before.glimpse = (reply, change))
    (view : after.view = before.view.leave txn a.page change)
    (held : a.page.table = a.table → after.locks.holds txn a.page)
    (roomy : a.page.table = a.table → (∃ seen, before.glimpse a.page = .ok seen) →
      Roomy before.config.capacity before.drafted a.page) :
    Tracked after (.answered txn a.operation reply :: log) txn := by
  obtain ⟨calls, same, registered, holds, replay⟩ := tracked
  have sees : a.page.table = a.table →
      before.glimpse a.page = sight txn before.served (before.view.wrote txn) a.page :=
    fun own => Pool.glimpse_eq_sight fun _ _ draft => beside.owner coherent (held own) draft
  refine ⟨calls ++ [(a, reply)], ?_, ?_, ?_, ?_⟩
  · rw [Serial.performed_self performs, same, List.map_append]
    rfl
  · intro c listed
    rw [beside.media.catalog]
    rcases List.mem_append.mp listed with earlier | last
    · exact registered c earlier
    · rw [List.mem_singleton.mp last]
      exact known
  · intro c listed own
    rcases List.mem_append.mp listed with earlier | last
    · exact beside.kept _ (holds c earlier own)
    · rw [List.mem_singleton.mp last] at own ⊢
      exact held own
  · rw [beside.media.config, Pool.served_of_media beside.media, view, View.wrote_leave_self]
    refine .call replay ?_ fun own visible => ?_
    · rw [← performed]
      exact Access.perform_congr fun own => (sees own).symm
    · rw [← sees own] at visible
      refine (roomy own visible).fewer fun q written => ?_
      obtain ⟨data, wrote⟩ := Option.isSome_iff_exists.mp written
      have draft : before.draft? q = some (txn, data) := View.wrote_eq_some.mp wrote
      rw [Pool.drafted, draft]
      rfl

/-! ## Commits and rollbacks -/

/-- Of the pages that others hold a commit changes nothing. -/
theorem Tracked.commit_other {later : List Event} (tracked : Tracked pool log b)
    (coherent : pool.Coherent) (done : (pool.commit txn).2 = .ok ()) (differ : b ≠ txn)
    (performed : Serial.performed b later = Serial.performed b log) :
    Tracked (pool.commit txn).1 later b := by
  obtain ⟨_, tables, view⟩ := coherent.commit txn
  refine tracked.stays tables performed ?_ ?_ ?_
  · intro page held
    rw [LockTable.holds_congr (Pool.commit_others coherent differ page)]
    exact held
  · intro page held
    apply coherent.commit_served done
    cases written : pool.view.wrote txn page with
    | none => rfl
    | some data =>
      have same := coherent.owner_of_holds held (View.wrote_eq_some.mp written)
      exact absurd same.symm differ
  · rw [view done]
    exact View.wrote_gone_other rfl differ

theorem Tracked.abort_other {later : List Event} (tracked : Tracked pool log b)
    (coherent : pool.Coherent) (differ : b ≠ txn)
    (performed : Serial.performed b later = Serial.performed b log) :
    Tracked (pool.abort txn).1 later b := by
  obtain ⟨_, media, view, _⟩ := coherent.abort txn
  refine tracked.stays media.toSameTables performed ?_ ?_ ?_
  · intro page held
    rw [LockTable.holds_congr (Pool.abort_others coherent differ page)]
    exact held
  · intro page _
    rw [Pool.served_of_media media]
  · rw [view]
    exact View.wrote_gone_other rfl differ

/-- A transaction that commits can run alone behind those that were committed before it. -/
theorem Mirrored.commit (mirrored : Mirrored origin pool log) (coherent : pool.Coherent)
    (tracked : Tracked pool log txn) (done : (pool.commit txn).2 = .ok ()) {ending : Ending}
    (lasts : ending.commits (.ok ()) = true) :
    Mirrored origin (pool.commit txn).1 (.ended txn ending (.ok ()) :: log) := by
  obtain ⟨other, ran, steady, idle, config, catalog, media⟩ := mirrored
  obtain ⟨calls, performed, known, _, replay⟩ := tracked
  have served : other.served = pool.served := by
    funext page
    exact Pool.served_congr config catalog fun ref => by
      show (other.media ref).read page = (pool.media ref).read page
      rw [media]
  have replay : Replay other.config.capacity txn other.served calls (pool.view.wrote txn) := by
    rw [config, served]
    exact replay
  have known : ∀ c ∈ calls, (other.catalog.file? c.1.table).isSome := by
    rw [catalog]
    exact known
  obtain ⟨mid, followed, midSteady, alone, sameMedia, wrote⟩ :=
    Interleaving.run_transaction (s := ⟨other, [], Serial.events log⟩) steady idle rfl replay known
      lasts
  obtain ⟨midDone, lastSteady, lastIdle⟩ := midSteady.commit alone
  have tables := (coherent.commit txn).2.1
  have midTables := (midSteady.coherent.commit txn).2.1
  refine ⟨(mid.commit txn).1, ?_, lastSteady, lastIdle, ?_, ?_, ?_⟩
  · rw [Serial.actions, if_pos lasts, Serial.events, if_pos lasts, performed, List.map_map,
      List.map_map, List.append_assoc, Interleaving.run, List.foldl_append]
    rw [Interleaving.run] at ran followed
    rw [ran]
    exact followed
  · rw [midTables.config, sameMedia.config, tables.config]
    exact config
  · rw [midTables.catalog, sameMedia.catalog, tables.catalog]
    exact catalog
  · refine coherent.commit_media_congr midSteady.coherent done midDone ?_ ?_ wrote
    · rw [sameMedia.catalog]
      exact catalog
    · rw [sameMedia.media]
      exact media

/-! ## Runs -/

namespace Interleaving

variable {s : Interleaving} {result : Pool × Progress Answer} {others : List Suspension}

/-- Every transaction can be replayed, and the committed ones can run one after another. -/
structure Serializable (origin : Pool) (s : Interleaving) : Prop where
  catalog : s.pool.catalog = origin.catalog
  coherent : s.pool.Coherent
  dependable : s.pool.Dependable
  registered : s.pool.HoldsRegistered
  awaits : ∀ r ∈ s.suspended, r.Awaits s.pool.catalog
  tracked : ∀ txn, Tracked s.pool s.log txn
  mirrored : Mirrored origin s.pool s.log

theorem Serializable.access (serializable : Serializable origin s)
    (beside : Pool.Beside txn a s.pool after) (known : (s.pool.catalog.file? a.table).isSome)
    (awaits : ∀ r ∈ others, r.Awaits s.pool.catalog) (tracked : ∀ b, Tracked after log b)
    (actions : Serial.actions log = Serial.actions s.log)
    (events : Serial.events log = Serial.events s.log) :
    Serializable origin ⟨after, others, log⟩ := by
  refine ⟨beside.media.catalog.trans serializable.catalog, beside.coherent,
    serializable.dependable.congr beside.media.toSameTables,
    beside.registered serializable.registered known, fun r listed => ?_, tracked,
    serializable.mirrored.stays beside.media actions events⟩
  show r.Awaits after.catalog
  rw [beside.media.catalog]
  exact awaits r listed

/-- Whatever becomes of an access, the run stays serializable. -/
theorem Serializable.settle (serializable : Serializable origin s)
    (known : (s.pool.catalog.file? a.table).isSome)
    (attended : Pool.Attended txn a s.pool result) (fewer : ∀ r ∈ others, r ∈ s.suspended) :
    Serializable origin (settle others s.log txn a.operation result) := by
  have coherent := serializable.coherent
  have awaits : ∀ r ∈ others, r.Awaits s.pool.catalog :=
    fun r listed => serializable.awaits r (fewer r listed)
  cases attended with
  | waits beside view own differ held =>
    refine serializable.access beside known (fun r listed => ?_) (fun b => ?_) rfl rfl
    · rcases List.mem_append.mp listed with before | new
      · exact awaits r before
      · rw [List.mem_singleton.mp new]
        exact ⟨a, rfl, rfl, own, known⟩
    · exact (serializable.tracked b).access_quiet beside rfl view
  | @interrupted after e beside view own interruption =>
    have skipped : Serial.performs (.error e) = false := by
      rw [Serial.performs, interruption.interrupts]
      rfl
    refine serializable.access beside known awaits (fun b => ?_) rfl rfl
    exact (serializable.tracked b).access_quiet beside (Serial.performed_skipped skipped) view
  | @performed after answer beside view shown held roomy =>
    show Serializable origin
      ⟨after, others, .answered txn a.operation (answer.map fun given => given.show after) :: s.log⟩
    rw [shown]
    have performs : Serial.performs (a.perform txn s.pool.glimpse).1 = true := by
      cases reply : (a.perform txn s.pool.glimpse).1 with
      | ok _ => rfl
      | error e =>
        rw [Serial.performs, Pool.perform_error reply]
        rfl
    refine serializable.access beside known awaits (fun b => ?_) rfl rfl
    by_cases mine : b = txn
    · subst mine
      exact (serializable.tracked b).access_self coherent beside known performs rfl view held roomy
    · apply (serializable.tracked b).access_other beside mine (Serial.performed_other mine)
      rw [view]
      refine View.wrote_leave_other mine fun changed => ?_
      -- a page that is changed is held by the transaction alone
      have own : a.page.table = a.table := by
        by_cases own : a.page.table = a.table
        · exact own
        · rw [Access.perform, if_neg own] at changed
          cases changed
      cases written : s.pool.view.wrote b a.page with
      | none => rfl
      | some data =>
        exact absurd (beside.owner coherent (held own) (View.wrote_eq_some.mp written)) mine

/-- A transaction that has ended has no calls, and the others are where they were. -/
theorem Serializable.ended (serializable : Serializable origin s) {ending : Ending}
    {result : Except PoolError Unit} (coherent : after.Coherent)
    (tables : Pool.SameTables s.pool after) (locks : after.locks = s.pool.locks.releaseAll txn)
    (gone : after.view.draft =
      fun q => if (s.pool.view.wrote txn q).isSome then none else s.pool.view.draft q)
    (left : ending.leaves result = false)
    (others : ∀ b, b ≠ txn → Tracked after (.ended txn ending result :: s.log) b)
    (mirrored : Mirrored origin after (.ended txn ending result :: s.log)) :
    Serializable origin { s with pool := after, log := .ended txn ending result :: s.log } where
  catalog := tables.catalog.trans serializable.catalog
  coherent := coherent
  dependable := serializable.dependable.congr tables
  registered := serializable.registered.releaseAll serializable.coherent.locks tables.catalog locks
  awaits := by
    show ∀ r ∈ s.suspended, r.Awaits after.catalog
    rw [tables.catalog]
    exact serializable.awaits
  tracked := by
    intro b
    by_cases mine : b = txn
    · rw [mine]
      exact .fresh (Serial.performed_ended_self left) (View.wrote_gone_self gone)
    · exact others b mine
  mirrored := mirrored

theorem Serializable.finish (serializable : Serializable origin s) (txn : TransactionId)
    (ending : Ending) :
    Serializable origin { s with
      pool := (ending.run s.pool txn).1
      log := .ended txn ending (ending.run s.pool txn).2 :: s.log } := by
  have coherent := serializable.coherent
  obtain ⟨done, view, released⟩ :=
    coherent.commit_ok serializable.dependable serializable.registered txn
  rcases ending_cases done ending with ⟨eq, lasts⟩ | ⟨result, eq, lost, left⟩
  · rw [eq]
    obtain ⟨committed, tables, _⟩ := coherent.commit txn
    apply serializable.ended committed tables released (by rw [view]; rfl) ending.leaves_ok
    · intro b other
      exact (serializable.tracked b).commit_other coherent done other
        (Serial.performed_ended_other other)
    · exact serializable.mirrored.commit coherent (serializable.tracked txn) done lasts
  · rw [eq]
    obtain ⟨aborted, media, forgotten, locks, _⟩ := coherent.abort txn
    apply serializable.ended aborted media.toSameTables locks (by rw [forgotten]; rfl) left
    · intro b other
      exact (serializable.tracked b).abort_other coherent other
        (Serial.performed_ended_other other)
    · exact serializable.mirrored.stays media (Serial.actions_lost lost) (Serial.events_lost lost)

theorem Serializable.step (serializable : Serializable origin s) {action : Action}
    (allowed : action.Accesses origin.catalog) : Serializable origin (s.step action) := by
  rw [← serializable.catalog] at allowed
  cases action with
  | call txn op =>
    obtain ⟨a, rfl, known⟩ := allowed
    rw [Interleaving.step]
    split
    · exact serializable
    · exact serializable.settle known (serializable.coherent.submit_attended txn a known)
        fun r listed => listed
  | retry txn =>
    rw [Interleaving.step]
    split
    · exact serializable
    next r found =>
      have listed := List.mem_of_find?_eq_some found
      obtain ⟨a, operation, request, own, known⟩ := serializable.awaits r listed
      rw [operation, request]
      exact serializable.settle known (serializable.coherent.resume_attended txn a own)
        fun q kept => (List.mem_filter.mp kept).1
  | flush txn => exact absurd allowed id
  | flushAll cached => exact absurd allowed id
  | finish txn ending =>
    rw [Interleaving.step]
    split
    · exact serializable
    · exact serializable.finish txn ending

theorem Serializable.run (serializable : Serializable origin s) {actions : List Action}
    (allowed : ∀ action ∈ actions, action.Accesses origin.catalog) :
    Serializable origin (s.run actions) := by
  induction actions generalizing s with
  | nil => exact serializable
  | cons action rest ih =>
    exact ih (serializable.step (allowed action List.mem_cons_self))
      fun later listed => allowed later (List.mem_cons_of_mem _ listed)

/-! ## Serial runs -/

variable {config : Config} {catalog : Catalog Table} {stores : Array Store} {objects : Array Page}

theorem serializable_start
    (created : Pool.create config catalog stores objects = .ok pool) (heaps : pool.OverHeaps)
    (matching : ∀ store ∈ stores, store.medium.pageSize = config.pageSize)
    (writes : ∀ store ∈ stores, ∀ call, store.writes.works call = true) :
    Serializable pool.mended (start pool) := by
  have coherent := Pool.coherent_create created heaps
  have idle : pool.Idle := Pool.unheld_create created
  have dependable : pool.Dependable := by
    have built := (Pool.create_eq_ok created).2
    refine Pool.dependable_of_stores heaps ?_ ?_
    · rw [built]
      exact matching
    · rw [built]
      exact writes
  refine ⟨rfl, coherent, dependable, fun txn page held => absurd held (idle txn page),
    fun r listed => absurd listed List.not_mem_nil,
    fun txn => .fresh rfl (coherent.wrote_of_idle idle txn), ?_⟩
  refine ⟨pool.mended, rfl, Pool.steady_create created heaps dependable, idle, rfl, rfl, ?_⟩
  funext ref
  show (pool.mended.store ref).medium = _
  rw [Pool.mended_store]
  rfl

/-- A store in memory with one page of 64 bytes and one tuple on it. -/
def singleTuple : Store :=
  .reliable (.memory ⟨⟨1⟩, 64, #[(SlottedPage.insert (Bytes.zeros 64) #[7, 8]).1]⟩)

/-- The committed transactions of a run can run one after another in the order of their commits,
from the same media, where nothing is ever stopped. Every performed call of theirs is answered as
it was, and the media are the same in the end. -/
theorem committed_run_serially
    (created : Pool.create config catalog stores objects = .ok pool) (heaps : pool.OverHeaps)
    (matching : ∀ store ∈ stores, store.medium.pageSize = config.pageSize)
    (writes : ∀ store ∈ stores, ∀ call, store.writes.works call = true) (actions : List Action)
    (allowed : ∀ action ∈ actions, action.Accesses catalog) (reached : Interleaving)
    (reaches : (start pool).run actions = reached) :
    ∃ other serial,
      Pool.create config catalog (stores.map Store.mended) objects = .ok other ∧
      (start other).run (Serial.actions reached.log) = serial ∧
      serial.log = Serial.events reached.log ∧ serial.suspended = [] ∧
      ∀ ref, (serial.pool.store ref).medium = (reached.pool.store ref).medium := by
  have catalogs : pool.catalog = catalog := by rw [(Pool.create_eq_ok created).2]
  have sameStores : pool.stores = stores := by rw [(Pool.create_eq_ok created).2]
  have started := serializable_start created heaps matching writes
  have serializable : Serializable pool.mended ((start pool).run actions) := by
    refine started.run fun action listed => ?_
    rw [show pool.mended.catalog = catalog from catalogs]
    exact allowed action listed
  rw [reaches] at serializable
  obtain ⟨last, ran, _, _, _, _, media⟩ := serializable.mirrored
  refine ⟨pool.mended, _, ?_, ran, rfl, rfl, fun ref => congrFun media ref⟩
  simp only [Pool.mended]
  rw [sameStores]
  exact Pool.create_congr created _

/-- The first transaction deletes the tuple and is rolled back, the second waits for it and gets
the tuple, the third waits for the second and deletes it, and the fourth waits for the third. -/
theorem waiting_readers_run_serially : ∃ pool reached other serial,
    Pool.create (Config.sized 2 64) (Catalog.single "a" singleTuple.medium) #[singleTuple] #[] =
      .ok pool ∧
    (start pool).run [.call ⟨1⟩ (.mutate ⟨1⟩ (.delete ⟨⟨⟨1⟩, 0⟩, 0⟩)),
      .call ⟨2⟩ (.get ⟨1⟩ ⟨⟨⟨1⟩, 0⟩, 0⟩), .finish ⟨1⟩ .drop, .retry ⟨2⟩,
      .call ⟨3⟩ (.mutate ⟨1⟩ (.delete ⟨⟨⟨1⟩, 0⟩, 0⟩)), .finish ⟨2⟩ .commit, .retry ⟨3⟩,
      .call ⟨4⟩ (.get ⟨1⟩ ⟨⟨⟨1⟩, 0⟩, 0⟩), .finish ⟨3⟩ .close, .retry ⟨4⟩,
      .finish ⟨4⟩ .commit] = reached ∧
    Pool.create (Config.sized 2 64) (Catalog.single "a" singleTuple.medium)
      (#[singleTuple].map Store.mended) #[] = .ok other ∧
    (start other).run [.call ⟨2⟩ (.get ⟨1⟩ ⟨⟨⟨1⟩, 0⟩, 0⟩), .finish ⟨2⟩ .commit,
      .call ⟨3⟩ (.mutate ⟨1⟩ (.delete ⟨⟨⟨1⟩, 0⟩, 0⟩)), .finish ⟨3⟩ .close,
      .call ⟨4⟩ (.get ⟨1⟩ ⟨⟨⟨1⟩, 0⟩, 0⟩), .finish ⟨4⟩ .commit] = serial ∧
    serial.log = Serial.events reached.log ∧ serial.suspended = [] ∧
    ∀ ref, (serial.pool.store ref).medium = (reached.pool.store ref).medium := by
  have created : Pool.create (Config.sized 2 64) (Catalog.single "a" singleTuple.medium)
    #[singleTuple] #[] = .ok _ := rfl
  have matching :
      ∀ store ∈ #[singleTuple], store.medium.pageSize = (Config.sized 2 64).pageSize := by
    intro store listed
    rw [Array.mem_singleton.mp listed]
    rfl
  have writes : ∀ store ∈ #[singleTuple], ∀ call, store.writes.works call = true := by
    intro store listed call
    rw [Array.mem_singleton.mp listed]
    rfl
  have get : ∃ a : Access, Operation.get ⟨1⟩ ⟨⟨⟨1⟩, 0⟩, 0⟩ = a.operation ∧
      ((Catalog.single "a" singleTuple.medium).file? a.table).isSome :=
    ⟨.get ⟨1⟩ ⟨⟨⟨1⟩, 0⟩, 0⟩, rfl, rfl⟩
  have delete : ∃ a : Access, Operation.mutate ⟨1⟩ (.delete ⟨⟨⟨1⟩, 0⟩, 0⟩) = a.operation ∧
      ((Catalog.single "a" singleTuple.medium).file? a.table).isSome :=
    ⟨.delete ⟨1⟩ ⟨⟨⟨1⟩, 0⟩, 0⟩, rfl, rfl⟩
  have allowed : ∀ action ∈ [Action.call ⟨1⟩ (.mutate ⟨1⟩ (.delete ⟨⟨⟨1⟩, 0⟩, 0⟩)),
      .call ⟨2⟩ (.get ⟨1⟩ ⟨⟨⟨1⟩, 0⟩, 0⟩), .finish ⟨1⟩ .drop, .retry ⟨2⟩,
      .call ⟨3⟩ (.mutate ⟨1⟩ (.delete ⟨⟨⟨1⟩, 0⟩, 0⟩)), .finish ⟨2⟩ .commit, .retry ⟨3⟩,
      .call ⟨4⟩ (.get ⟨1⟩ ⟨⟨⟨1⟩, 0⟩, 0⟩), .finish ⟨3⟩ .close, .retry ⟨4⟩, .finish ⟨4⟩ .commit],
      action.Accesses (Catalog.single "a" singleTuple.medium) := by
    intro action listed
    simp only [List.mem_cons, List.not_mem_nil, or_false] at listed
    rcases listed with rfl | rfl | rfl | rfl | rfl | rfl | rfl | rfl | rfl | rfl | rfl
    · exact delete
    · exact get
    · trivial
    · trivial
    · exact delete
    · trivial
    · trivial
    · exact get
    · trivial
    · trivial
    · trivial
  obtain ⟨other, serial, mended, ran, same⟩ :=
    committed_run_serially created (Pool.heaps_single created) matching writes _ allowed _ rfl
  refine ⟨_, _, other, serial, created, rfl, mended, ?_, same⟩
  refine (congrArg (start other).run ?_).trans ran
  decide +kernel

end Interleaving

end TransactionalPages
