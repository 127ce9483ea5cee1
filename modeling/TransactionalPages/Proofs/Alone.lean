import TransactionalPages.Proofs.Replay
import TransactionalPages.Proofs.Turn
import TransactionalPages.Proofs.WriteBack

/-!
# Transactions that are alone

Where stores never stop a call and nobody else holds a lock, an access neither
waits nor is it interrupted. A transaction is answered what its replay says, and
its commit succeeds, writes the drafts of the replay and leaves no lock.
-/

namespace TransactionalPages

/-- The same medium, and no call to it is ever stopped. -/
def Store.mended (s : Store) : Store := .reliable s.medium

namespace Pool

variable {pool before after : Pool} {txn b : TransactionId} {page : PageId} {a : Access}
  {reply : Except PoolError Reply} {change : Option Bytes}

/-- Neither reads nor writes of the stores are ever stopped. -/
structure Steady (pool : Pool) : Prop where
  coherent : pool.Coherent
  dependable : pool.Dependable
  registered : pool.HoldsRegistered
  reads : ∀ ref call, (pool.store ref).reads.works call = true

theorem Steady.congr (steady : before.Steady) (coherent : after.Coherent)
    (tables : SameTables before after) (registered : after.HoldsRegistered) : after.Steady where
  coherent := coherent
  dependable := steady.dependable.congr tables
  registered := registered
  reads ref call := by
    rw [tables.reads]
    exact steady.reads ref call

/-- Nobody else holds a lock. -/
def Alone (txn : TransactionId) (pool : Pool) : Prop :=
  ∀ b page, pool.locks.holds b page → b = txn

def Idle (pool : Pool) : Prop := ∀ b page, ¬pool.locks.holds b page

theorem Idle.alone (idle : pool.Idle) (txn : TransactionId) : pool.Alone txn :=
  fun b page held => absurd held (idle b page)

/-- Nobody has written anything while nobody holds a lock. -/
theorem Coherent.wrote_of_idle (coherent : pool.Coherent) (idle : pool.Idle)
    (txn : TransactionId) : pool.view.wrote txn = fun _ => none := by
  funext page
  cases written : pool.view.wrote txn page with
  | none => rfl
  | some data =>
    have held := coherent.owner_holds (View.wrote_eq_some.mp written)
    exact absurd held (idle txn page)

/-- A transaction that is alone has written all drafts. -/
theorem Coherent.draft_of_alone (coherent : pool.Coherent) (alone : pool.Alone txn)
    {owner : TransactionId} {data : Bytes} (draft : pool.draft? page = some (owner, data)) :
    owner = txn :=
  alone owner page (coherent.owner_holds draft)

theorem Beside.registered (beside : Beside txn a before after)
    (registered : before.HoldsRegistered) (known : (before.catalog.file? a.table).isSome) :
    after.HoldsRegistered := by
  intro b page held
  rw [beside.media.catalog]
  by_cases mine : b = txn
  · subst mine
    rcases beside.only page held with already | ⟨here, own⟩
    · exact registered b page already
    · rw [here, own]
      exact known
  · rw [LockTable.holds_congr (beside.others b page mine)] at held
    exact registered b page held

theorem Beside.alone (beside : Beside txn a before after) (alone : before.Alone txn) :
    after.Alone txn := by
  intro b page held
  by_cases mine : b = txn
  · exact mine
  · rw [LockTable.holds_congr (beside.others b page mine)] at held
    exact alone b page held

/-- What there is to see is what a transaction sees that is alone. -/
theorem Coherent.glimpse_of_alone (coherent : pool.Coherent) (alone : pool.Alone txn) :
    pool.glimpse = sight txn pool.served (pool.view.wrote txn) := by
  funext page
  exact glimpse_eq_sight fun owner data draft => coherent.draft_of_alone alone draft

/-- An access is answered when its transaction is alone. -/
theorem Steady.access (steady : pool.Steady) (alone : pool.Alone txn)
    (known : (pool.catalog.file? a.table).isSome)
    (performed : a.perform txn (sight txn pool.served (pool.view.wrote txn)) = (reply, change))
    (roomy : a.page.table = a.table →
      (∃ seen, sight txn pool.served (pool.view.wrote txn) a.page = .ok seen) →
      Roomy pool.config.capacity (fun q => (pool.view.wrote txn q).isSome) a.page) :
    ∃ after answer, pool.submit txn a.operation = (after, .done answer) ∧
      after.Steady ∧ after.Alone txn ∧ SameMedia pool after ∧
      after.view.wrote txn = overlay (pool.view.wrote txn) a.page change ∧
      (answer.map fun given => given.show after) = reply := by
  have coherent := steady.coherent
  have glimpsed := coherent.glimpse_of_alone alone
  have attended := coherent.submit_attended txn a known
  rw [← glimpsed] at performed roomy
  cases submitted : pool.submit txn a.operation with
  | mk after progress =>
    rw [submitted] at attended
    cases attended with
    | waits beside view own differ held => exact absurd (alone _ _ held) differ
    | interrupted beside view own interruption =>
      exfalso
      cases interruption with
      | deadlock differ held => exact differ (alone _ _ held)
      | @stopped ref call stopped =>
        rw [steady.reads ref call] at stopped
        cases stopped
      | exhausted visible full =>
        refine full ((roomy own ⟨_, visible⟩).fewer fun q drafted => ?_)
        obtain ⟨⟨owner, data⟩, draft⟩ := Option.isSome_iff_exists.mp drafted
        cases coherent.draft_of_alone alone draft
        rw [View.wrote_eq_some.mpr draft]
        rfl
    | performed beside view shown held roomy =>
      rw [performed] at view shown
      refine ⟨after, _, rfl, ?_, beside.alone alone, beside.media, ?_, shown⟩
      · exact steady.congr beside.coherent beside.media.toSameTables
          (beside.registered steady.registered known)
      · rw [view]
        exact View.wrote_leave_self pool.view txn a.page change

/-- A commit of a transaction that is alone succeeds and leaves no lock. -/
theorem Steady.commit (steady : pool.Steady) (alone : pool.Alone txn) :
    (pool.commit txn).2 = .ok () ∧ (pool.commit txn).1.Steady ∧ (pool.commit txn).1.Idle := by
  have coherent := steady.coherent
  obtain ⟨done, _, locks⟩ := coherent.commit_ok steady.dependable steady.registered txn
  have idle : (pool.commit txn).1.Idle := by
    intro b page held
    rw [locks] at held
    obtain ⟨other, before⟩ := LockTable.holds_of_releaseAll coherent.locks held
    exact other (alone b page before)
  obtain ⟨after, tables, _⟩ := coherent.commit txn
  exact ⟨done, steady.congr after tables fun b page held => absurd held (idle b page), idle⟩

def mended (pool : Pool) : Pool := { pool with stores := pool.stores.map Store.mended }

theorem mended_store (pool : Pool) (ref : StoreRef) :
    pool.mended.store ref = (pool.store ref).mended := by
  simp only [store, mended]
  rw [Array.getD_eq_getD_getElem?, Array.getD_eq_getD_getElem?, Array.getElem?_map]
  cases pool.stores[ref.index]? <;> rfl

theorem OverHeaps.mended (heaps : pool.OverHeaps) : pool.mended.OverHeaps := by
  intro id file known
  obtain ⟨heap, inside, belongs⟩ := heaps id file known
  rw [mended_store]
  refine ⟨heap, ?_, belongs⟩
  show file.store.index < (pool.stores.map Store.mended).size
  rw [Array.size_map]
  exact inside

/-- A new pool whose stores are mended has nothing to wait for. -/
theorem steady_create {config : Config} {catalog : Catalog Table} {stores : Array Store}
    {objects : Array Page} (created : create config catalog stores objects = .ok pool)
    (heaps : pool.OverHeaps) (dependable : pool.Dependable) : pool.mended.Steady where
  coherent := coherent_create (create_congr created _) heaps.mended
  dependable := by
    constructor
    · intro id file known
      rw [mended_store]
      exact dependable.pageSize id file known
    · intro id file _ call
      rw [mended_store]
      rfl
  registered txn page held := absurd held (unheld_create created txn page)
  reads ref call := by
    rw [mended_store]
    rfl

theorem SameMedia.media (media : SameMedia before after) : after.media = before.media := by
  funext ref
  exact media.medium ref

end Pool

namespace Interleaving

variable {s : Interleaving} {txn : TransactionId} {mine : PageId → Option Bytes}
  {calls : List (Access × Except PoolError Reply)}

/-- The calls of a replay, made one after another, are answered as they were. -/
theorem run_replay (steady : s.pool.Steady) (alone : s.pool.Alone txn)
    (clean : s.pool.view.wrote txn = fun _ => none) (free : s.suspended = [])
    (replay : Replay s.pool.config.capacity txn s.pool.served calls mine)
    (known : ∀ c ∈ calls, (s.pool.catalog.file? c.1.table).isSome) :
    ∃ after : Pool, s.run (calls.map fun c => .call txn c.1.operation) =
        ⟨after, [], (calls.map fun c => .answered txn c.1.operation c.2).reverse ++ s.log⟩ ∧
      after.Steady ∧ after.Alone txn ∧ Pool.SameMedia s.pool after ∧
      after.view.wrote txn = mine := by
  induction replay with
  | nil =>
    obtain ⟨pool, suspended, log⟩ := s
    cases free
    exact ⟨pool, rfl, steady, alone, .refl pool, clean⟩
  | @call calls mine a reply change earlier performed roomy ih =>
    obtain ⟨mid, ran, midSteady, midAlone, media, wrote⟩ :=
      ih fun c listed => known c (List.mem_append_left _ listed)
    have registered : (mid.catalog.file? a.table).isSome := by
      rw [media.catalog]
      exact known (a, reply) (List.mem_append_right _ List.mem_cons_self)
    have served : mid.served = s.pool.served := Pool.served_of_media media
    rw [← served, ← wrote] at performed
    rw [← served, ← wrote, ← media.config] at roomy
    obtain ⟨after, answer, submitted, afterSteady, afterAlone, later, left, shown⟩ :=
      midSteady.access midAlone registered performed roomy
    refine ⟨after, ?_, afterSteady, afterAlone, media.trans later, by rw [left, wrote]⟩
    have last : ∀ log, Interleaving.step ⟨mid, [], log⟩ (.call txn a.operation) =
        ⟨after, [], .answered txn a.operation reply :: log⟩ := by
      intro log
      show settle [] log txn a.operation (mid.submit txn a.operation) = _
      rw [submitted, ← shown]
      rfl
    rw [List.map_append, List.map_append, List.reverse_append, run, List.foldl_append]
    rw [run] at ran
    rw [ran]
    exact last _

/-- A transaction that is alone commits what its replay has written. -/
theorem run_transaction (steady : s.pool.Steady) (idle : s.pool.Idle) (free : s.suspended = [])
    (replay : Replay s.pool.config.capacity txn s.pool.served calls mine)
    (known : ∀ c ∈ calls, (s.pool.catalog.file? c.1.table).isSome) {ending : Ending}
    (lasts : ending.commits (.ok ()) = true) :
    ∃ mid : Pool,
      s.run ((calls.map fun c => .call txn c.1.operation) ++ [.finish txn ending]) =
        ⟨(mid.commit txn).1, [], .ended txn ending (.ok ()) ::
          ((calls.map fun c => .answered txn c.1.operation c.2).reverse ++ s.log)⟩ ∧
      mid.Steady ∧ mid.Alone txn ∧ Pool.SameMedia s.pool mid ∧ mid.view.wrote txn = mine := by
  obtain ⟨mid, ran, midSteady, alone, media, wrote⟩ := run_replay steady (idle.alone txn)
    (steady.coherent.wrote_of_idle idle txn) free replay known
  refine ⟨mid, ?_, midSteady, alone, media, wrote⟩
  have committed := ending_commits (midSteady.commit alone).1 lasts
  rw [run] at ran
  rw [run, List.foldl_append, ran]
  show (⟨(ending.run mid txn).1, [], .ended txn ending (ending.run mid txn).2 :: _⟩ :
    Interleaving) = _
  rw [committed]

end Interleaving

end TransactionalPages
