import TransactionalPages.Proofs.Dependable
import TransactionalPages.Proofs.Interleaving

/-!
# Turns over dependable stores

Where operations are about registered tables, writes are not stopped and nothing
is written back but by commits, a turn of a transaction is one of four things. It
passes, or an operation goes on, or a commit stores the drafts of the transaction,
or they are forgotten.
-/

namespace TransactionalPages

/-- Calls are about registered tables, and pages are written back by commits only. -/
def Action.Proper (catalog : Catalog Table) : Action → Prop
  | .call _ op => (catalog.file? op.table).isSome
  | .retry _ => True
  | .flush _ => False
  | .flushAll _ => False
  | .finish _ _ => True

namespace Interleaving

structure Proper (s : Interleaving) : Prop where
  sound : s.Sound
  dependable : s.pool.Dependable
  registered : s.pool.HoldsRegistered
  known : ∀ r ∈ s.suspended, (s.pool.catalog.file? r.op.table).isSome

/-- How a turn changes a run. -/
inductive Turn (s : Interleaving) : Interleaving → Prop where
  | passes : Turn s s
  | acts {txn : TransactionId} {op : Operation} {result : Pool × Progress Answer}
    {others : List Suspension} (effect : Pool.Effect txn op s.pool result)
    (known : (s.pool.catalog.file? op.table).isSome)
    (apart : ∀ r ∈ others, r ∈ s.suspended ∧ r.txn ≠ txn) :
    Turn s (settle others s.log txn op result)
  | commits {txn : TransactionId} {ending : Ending} {after : Pool}
    (view : after.view = s.pool.view.commit txn) (tables : Pool.SameTables s.pool after)
    (locks : after.locks = s.pool.locks.releaseAll txn) (lasts : ending.commits (.ok ()) = true) :
    Turn s { s with pool := after, log := .ended txn ending (.ok ()) :: s.log }
  | rolls {txn : TransactionId} {ending : Ending} {result : Except PoolError Unit} {after : Pool}
    (view : after.view = s.pool.view.abort txn) (tables : Pool.SameTables s.pool after)
    (locks : after.locks = s.pool.locks.releaseAll txn) (lost : ending.commits result = false)
    (gone : ending.leaves result = false) :
    Turn s { s with pool := after, log := .ended txn ending result :: s.log }

variable {s : Interleaving} {txn : TransactionId}

theorem ending_commits {pool : Pool} (committed : (pool.commit txn).2 = .ok ()) {ending : Ending}
    (lasts : ending.commits (.ok ()) = true) :
    ending.run pool txn = ((pool.commit txn).1, .ok ()) := by
  cases ending with
  | commit => exact Prod.ext rfl committed
  | close =>
    rcases pool.commitHandle_cases txn with ⟨_, eq⟩ | ⟨e, _, failed, _⟩
    · exact eq
    · rw [committed] at failed
      cases failed
  | abort => cases lasts
  | drop => cases lasts

/-- Where commits succeed, an ending is a commit or it is an abort. -/
theorem ending_cases {pool : Pool} (committed : (pool.commit txn).2 = .ok ()) (ending : Ending) :
    (ending.run pool txn = ((pool.commit txn).1, .ok ()) ∧ ending.commits (.ok ()) = true) ∨
    (∃ result, ending.run pool txn = ((pool.abort txn).1, result) ∧
      ending.commits result = false ∧ ending.leaves result = false) := by
  cases ending with
  | commit => exact Or.inl ⟨ending_commits committed rfl, rfl⟩
  | close => exact Or.inl ⟨ending_commits committed rfl, rfl⟩
  | abort => exact Or.inr ⟨(pool.abort txn).2, rfl, rfl, rfl⟩
  | drop =>
    exact Or.inr ⟨(pool.dropHandle txn).2, Prod.ext (pool.dropHandle_pool txn) rfl, rfl, rfl⟩

theorem Proper.finish (proper : s.Proper) (txn : TransactionId) (ending : Ending) :
    Turn s { s with
      pool := (ending.run s.pool txn).1
      log := .ended txn ending (ending.run s.pool txn).2 :: s.log } := by
  have coherent := proper.sound.coherent
  obtain ⟨committed, stored, locks⟩ :=
    coherent.commit_ok proper.dependable proper.registered txn
  rcases ending_cases committed ending with ⟨eq, lasts⟩ | ⟨result, eq, lost, gone⟩
  · rw [eq]
    exact .commits stored (coherent.commit txn).2.1 locks lasts
  · rw [eq]
    obtain ⟨_, media, forgotten, released, _⟩ := coherent.abort txn
    exact .rolls forgotten media.toSameTables released lost gone

theorem Proper.turn (proper : s.Proper) {action : Action}
    (allowed : action.Proper s.pool.catalog) : Turn s (s.step action) := by
  cases action with
  | call txn op =>
    rw [Interleaving.step]
    split
    · exact .passes
    next free =>
      have effect := Pool.submit_effect proper.sound.coherent proper.sound.countable txn op
      exact .acts effect allowed fun r listed => ⟨listed, Sound.not_suspended free r listed⟩
  | retry txn =>
    rw [Interleaving.step]
    split
    · exact .passes
    next r found =>
      have effect := Pool.resume_effect proper.sound.coherent proper.sound.countable
        (proper.sound.pending_found found)
      exact .acts effect (proper.known r (mem_of_found found).1) fun q kept => mem_of_rest kept
  | flush txn => exact absurd allowed id
  | flushAll cached => exact absurd allowed id
  | finish txn ending =>
    rw [Interleaving.step]
    split
    · exact .passes
    · exact proper.finish txn ending

theorem settle_pool (others : List Suspension) (log : List Event) (txn : TransactionId)
    (op : Operation) (result : Pool × Progress Answer) :
    (settle others log txn op result).pool = result.1 := by
  obtain ⟨pool, progress⟩ := result
  cases progress <;> rfl

/-- What waits after an operation has waited before, or it is that operation. -/
theorem mem_suspended_settle {others : List Suspension} {log : List Event} {op : Operation}
    {result : Pool × Progress Answer} {r : Suspension}
    (listed : r ∈ (settle others log txn op result).suspended) :
    r ∈ others ∨ (r.txn = txn ∧ r.op = op) := by
  obtain ⟨pool, progress⟩ := result
  cases progress with
  | waiting request =>
    rcases List.mem_append.mp listed with before | new
    · exact Or.inl before
    · rw [List.mem_singleton.mp new]
      exact Or.inr ⟨rfl, rfl⟩
  | done answer => exact Or.inl listed

theorem Turn.tables {after : Interleaving} (turn : Turn s after) (coherent : s.pool.Coherent) :
    Pool.SameTables s.pool after.pool := by
  cases turn with
  | passes => exact .refl _
  | acts effect known apart =>
    rw [settle_pool]
    exact (effect.coherent coherent).2.1
  | commits view tables => exact tables
  | rolls view tables => exact tables

theorem Proper.step (proper : s.Proper) {action : Action}
    (allowed : action.Proper s.pool.catalog) : (s.step action).Proper := by
  have sound := proper.sound.step action
  have turn := proper.turn allowed
  generalize s.step action = after at sound turn
  have tables := turn.tables proper.sound.coherent
  refine ⟨sound, proper.dependable.congr tables, ?_, fun r listed => ?_⟩
  · cases turn with
    | passes => exact proper.registered
    | acts effect known apart =>
      rw [settle_pool]
      exact effect.registered proper.sound.coherent proper.registered known
    | commits view tables locks =>
      exact proper.registered.releaseAll proper.sound.coherent.locks tables.catalog locks
    | rolls view tables locks =>
      exact proper.registered.releaseAll proper.sound.coherent.locks tables.catalog locks
  · rw [tables.catalog]
    cases turn with
    | passes => exact proper.known r listed
    | acts effect known apart =>
      rcases mem_suspended_settle listed with before | ⟨_, same⟩
      · exact proper.known r (apart r before).1
      · rwa [same]
    | commits => exact proper.known r listed
    | rolls => exact proper.known r listed

end Interleaving

end TransactionalPages
