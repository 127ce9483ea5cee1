import TransactionalPages.Proofs.Frame
import TransactionalPages.Proofs.LockTable
import TransactionalPages.Proofs.WaitFor

/-!
# Contention for page locks

Transactions ask a pool for page locks, give some of them back early, and commit
or abort. A refused request is suspended and its transaction does nothing else;
anyone may ask for it again at any time. Each suspended request remembers the
locks by which it was last refused, which is what its wait-for edges were drawn
from. The edges go stale as soon as those locks change, and only a retry renews
them.

When nothing is stale the edges are the real blocking relation. They never form a
cycle, so somebody who is not suspended can be reached along them.
-/

namespace TransactionalPages

/-- A request that was refused, with the locks by which it was refused last. -/
structure Suspended where
  txn : TransactionId
  page : PageId
  mode : LockMode
  refusedBy : LockTable

/-- A pool with the requests that are suspended. -/
structure Contention where
  pool : Pool
  suspended : List Suspended

inductive LockAction where
  | request (txn : TransactionId) (page : PageId) (mode : LockMode)
  /-- Asks again for what a transaction is suspended on. -/
  | retry (txn : TransactionId)
  | release (txn : TransactionId) (page : PageId)
  | commit (txn : TransactionId)
  | abort (txn : TransactionId)
  deriving DecidableEq

namespace Contention

/-- A pool before anybody has a lock or waits for one. -/
def start (pool : Pool) : Contention := ⟨{ pool with locks := .empty, waits := .empty }, []⟩

def isSuspended (c : Contention) (txn : TransactionId) : Bool :=
  c.suspended.any fun r => r.txn = txn

/-- Asks the pool for a lock; a refused request is suspended. -/
def ask (c : Contention) (txn : TransactionId) (page : PageId) (mode : LockMode)
    (waited : Bool) : Contention :=
  match c.pool.requestLock txn page mode waited with
  | (pool, .granted) => ⟨pool, c.suspended⟩
  | (pool, .victim) => ⟨pool, c.suspended⟩
  | (pool, .refused) => ⟨pool, ⟨txn, page, mode, pool.locks⟩ :: c.suspended⟩

/-- Takes a transaction's request off the list, to be asked for again. -/
def without (c : Contention) (txn : TransactionId) : Contention :=
  { c with suspended := c.suspended.filter fun r => r.txn ≠ txn }

/-- A suspended transaction does nothing but retry, and only a suspended one does that. -/
def step (c : Contention) : LockAction → Contention
  | .request txn page mode => if c.isSuspended txn then c else c.ask txn page mode false
  | .retry txn =>
    match c.suspended.find? fun r => r.txn = txn with
    | none => c
    | some r => (c.without txn).ask txn r.page r.mode true
  | .release txn page =>
    if c.isSuspended txn then c else { c with pool := c.pool.releaseLock txn page }
  | .commit txn => if c.isSuspended txn then c else { c with pool := (c.pool.commit txn).1 }
  | .abort txn => if c.isSuspended txn then c else { c with pool := (c.pool.abort txn).1 }

def run (c : Contention) (actions : List LockAction) : Contention := actions.foldl step c

/-- Whom a transaction really waits for: the others that hold the page it is suspended on. -/
def Blocks (c : Contention) (a b : TransactionId) : Prop :=
  ∃ r ∈ c.suspended, r.txn = a ∧ b ≠ a ∧ c.pool.locks.holds b r.page

/-- Every suspended request was refused by the locks as they are now. -/
def Quiescent (c : Contention) : Prop :=
  ∀ r ∈ c.suspended, ∀ txn page, r.refusedBy.mode? txn page = c.pool.locks.mode? txn page

/-- The edges were drawn from the locks by which the suspended requests were refused. -/
structure Inv (c : Contention) : Prop where
  sound : c.pool.locks.Sound
  acyclic : c.pool.waits.Acyclic
  edges : ∀ a b, b ∈ c.pool.waits.waitsFor a ↔
    ∃ r ∈ c.suspended, r.txn = a ∧ b ≠ a ∧ r.refusedBy.holds b r.page
  refused : ∀ r ∈ c.suspended, ∃ b, b ≠ r.txn ∧ r.refusedBy.holds b r.page

theorem isSuspended_iff (c : Contention) (txn : TransactionId) :
    c.isSuspended txn ↔ ∃ r ∈ c.suspended, r.txn = txn := by
  simp [isSuspended]

theorem inv_start (pool : Pool) : (start pool).Inv where
  sound := LockTable.sound_empty
  acyclic := WaitForGraph.acyclic_empty
  edges a b := by simp [start]
  refused r hr := by simp [start] at hr

/-! ## What a step preserves -/

/-- Who is not suspended waits for nobody. -/
theorem Inv.no_edges {c : Contention} (inv : c.Inv) {txn : TransactionId}
    (free : ¬c.isSuspended txn) (b : TransactionId) : b ∉ c.pool.waits.waitsFor txn := by
  intro edge
  obtain ⟨r, hr, same, _⟩ := (inv.edges txn b).mp edge
  exact free ((c.isSuspended_iff txn).mpr ⟨r, hr, same⟩)

/-- The edges of the others, and none of the transaction that is about to ask. -/
structure Asking (c : Contention) (txn : TransactionId) : Prop where
  sound : c.pool.locks.Sound
  acyclic : c.pool.waits.Acyclic
  edges : ∀ a b, a ≠ txn → (b ∈ c.pool.waits.waitsFor a ↔
    ∃ r ∈ c.suspended, r.txn = a ∧ b ≠ a ∧ r.refusedBy.holds b r.page)
  refused : ∀ r ∈ c.suspended, ∃ b, b ≠ r.txn ∧ r.refusedBy.holds b r.page
  off : ∀ r ∈ c.suspended, r.txn ≠ txn

/-- Dropping the edges of a transaction that is off the list leaves those of the others. -/
theorem Asking.edges_of_cleared {c : Contention} {txn : TransactionId} (h : c.Asking txn)
    {waits : WaitForGraph} (cleared : ∀ a b, b ∈ waits.waitsFor a ↔
      a ≠ txn ∧ b ∈ c.pool.waits.waitsFor a) (a b : TransactionId) :
    b ∈ waits.waitsFor a ↔
      ∃ r ∈ c.suspended, r.txn = a ∧ b ≠ a ∧ r.refusedBy.holds b r.page := by
  rw [cleared]
  by_cases same : a = txn
  · subst a
    constructor
    · exact fun edge => absurd rfl edge.1
    · rintro ⟨r, hr, self, _⟩
      exact absurd self (h.off r hr)
  · rw [h.edges a b same]
    exact ⟨fun edge => edge.2, fun edge => ⟨same, edge⟩⟩

theorem inv_ask {c : Contention} {txn : TransactionId} (h : c.Asking txn) (page : PageId)
    (mode : LockMode) (waited : Bool)
    (first : waited = false → ∀ b, b ∉ c.pool.waits.waitsFor txn) :
    (c.ask txn page mode waited).Inv := by
  simp only [ask]
  rcases c.pool.requestLock_cases txn page mode waited with
    ⟨locks, granted, eq⟩ | ⟨_, cycle, eq⟩ | ⟨denied, refused, eq⟩
  · rw [eq]
    -- A request that waited drops its edges, and one that did not has none.
    have cleared : ∀ a b, b ∈ (if waited then c.pool.waits.clear txn else c.pool.waits).waitsFor a ↔
        a ≠ txn ∧ b ∈ c.pool.waits.waitsFor a := by
      intro a b
      cases waited with
      | true => exact c.pool.waits.mem_clear txn a b
      | false =>
        refine ⟨fun edge => ⟨fun same => ?_, edge⟩, fun edge => edge.2⟩
        exact first rfl b (same ▸ edge)
    exact {
      sound := LockTable.sound_acquire h.sound granted
      acyclic := WaitForGraph.acyclic_of_subset h.acyclic fun a b edge => ((cleared a b).mp edge).2
      edges := h.edges_of_cleared cleared
      refused := h.refused }
  · rw [eq]
    exact {
      sound := h.sound
      acyclic := WaitForGraph.acyclic_block h.acyclic txn _
      edges := h.edges_of_cleared (WaitForGraph.mem_block_of_cycle cycle)
      refused := h.refused }
  · rw [eq]
    refine ⟨h.sound, WaitForGraph.acyclic_block h.acyclic txn _, fun a b => ?_, fun r hr => ?_⟩
    · rw [WaitForGraph.mem_block_of_refused refused]
      by_cases same : a = txn
      · subst a
        rw [if_pos rfl, LockTable.mem_holderList]
        constructor
        · rintro ⟨held, other⟩
          exact ⟨_, List.mem_cons_self, rfl, other, held⟩
        · rintro ⟨r, hr, self, other, held⟩
          rcases List.mem_cons.mp hr with rfl | old
          · exact ⟨held, other⟩
          · exact absurd self (h.off r old)
      · rw [if_neg same, h.edges a b same]
        constructor
        · rintro ⟨r, hr, rest⟩
          exact ⟨r, List.mem_cons_of_mem _ hr, rest⟩
        · rintro ⟨r, hr, self, rest⟩
          rcases List.mem_cons.mp hr with rfl | old
          · exact absurd self.symm same
          · exact ⟨r, old, self, rest⟩
    · rcases List.mem_cons.mp hr with rfl | old
      · exact LockTable.exists_holder_of_refused denied
      · exact h.refused r old

/-- Whoever is not suspended may change the locks, and drop the edges that it does not have. -/
theorem Inv.of_free {c : Contention} (inv : c.Inv) {txn : TransactionId}
    (free : ¬c.isSuspended txn) {pool : Pool} (sound : pool.locks.Sound)
    (waits : pool.waits = c.pool.waits ∨ pool.waits = c.pool.waits.clear txn) :
    Inv { c with pool := pool } := by
  have kept : ∀ a b, b ∈ pool.waits.waitsFor a ↔ b ∈ c.pool.waits.waitsFor a := by
    intro a b
    rcases waits with same | cleared
    · rw [same]
    · rw [cleared, WaitForGraph.mem_clear]
      refine ⟨fun edge => edge.2, fun edge => ⟨fun same => ?_, edge⟩⟩
      exact inv.no_edges free b (same ▸ edge)
  exact {
    sound := sound
    acyclic := WaitForGraph.acyclic_of_subset inv.acyclic fun a b edge => (kept a b).mp edge
    edges := fun a b => (kept a b).trans (inv.edges a b)
    refused := inv.refused }

/-- Ending a transaction keeps its locks or gives all of them back. -/
theorem Inv.of_ended {c : Contention} (inv : c.Inv) {txn : TransactionId}
    (free : ¬c.isSuspended txn) {moved pool : Pool} (control : c.pool.SameControl moved)
    (ended : pool = moved ∨ pool = moved.letGo txn) : Inv { c with pool := pool } := by
  have sound : moved.locks.Sound := control.locks ▸ inv.sound
  rcases ended with rfl | rfl
  · exact inv.of_free free sound (Or.inl control.waits)
  · exact inv.of_free free (LockTable.sound_releaseAll sound txn)
      (Or.inr (congrArg (WaitForGraph.clear · txn) control.waits))

theorem inv_step {c : Contention} (inv : c.Inv) (action : LockAction) : (c.step action).Inv := by
  cases action with
  | request txn page mode =>
    simp only [step]
    split
    · exact inv
    next free =>
      refine inv_ask ⟨inv.sound, inv.acyclic, fun a b _ => inv.edges a b, inv.refused, ?_⟩
        page mode false fun _ => inv.no_edges free
      exact fun r hr same => free ((c.isSuspended_iff txn).mpr ⟨r, hr, same⟩)
  | retry txn =>
    simp only [step]
    split
    · exact inv
    next r _ =>
      refine inv_ask (c := c.without txn)
        ⟨inv.sound, inv.acyclic, fun a b other => ?_, ?_, ?_⟩ r.page r.mode true
        fun asked => by cases asked
      · refine (inv.edges a b).trans ?_
        constructor
        · rintro ⟨s, hs, self, rest⟩
          refine ⟨s, List.mem_filter.mpr ⟨hs, ?_⟩, self, rest⟩
          simpa [self] using other
        · rintro ⟨s, hs, rest⟩
          exact ⟨s, (List.mem_filter.mp hs).1, rest⟩
      · exact fun s hs => inv.refused s (List.mem_filter.mp hs).1
      · exact fun s hs => by simpa using (List.mem_filter.mp hs).2
  | release txn page =>
    simp only [step]
    split
    · exact inv
    next free =>
      exact inv.of_free free (LockTable.sound_release inv.sound txn page) (Or.inl rfl)
  | commit txn =>
    simp only [step]
    split
    · exact inv
    next free =>
      obtain ⟨moved, control, ended⟩ := c.pool.commit_control txn
      exact inv.of_ended free control ended
  | abort txn =>
    simp only [step]
    split
    · exact inv
    next free =>
      obtain ⟨moved, control, ended⟩ := c.pool.abort_control txn
      exact inv.of_ended free control ended

theorem inv_run (actions : List LockAction) {c : Contention} (inv : c.Inv) :
    (c.run actions).Inv := by
  induction actions generalizing c with
  | nil => exact inv
  | cons action actions ih => exact ih (inv_step inv action)

/-! ## What can be read off the edges -/

/-- In a quiescent state nothing is stale: the edges are the real blocking relation. -/
theorem Inv.blocks_iff {c : Contention} (inv : c.Inv) (quiescent : c.Quiescent)
    (a b : TransactionId) : c.Blocks a b ↔ b ∈ c.pool.waits.waitsFor a := by
  rw [inv.edges]
  have same : ∀ r ∈ c.suspended, r.refusedBy.holds b r.page = c.pool.locks.holds b r.page :=
    fun r hr => congrArg Option.isSome (quiescent r hr b r.page)
  constructor
  · rintro ⟨r, hr, self, other, held⟩
    exact ⟨r, hr, self, other, (same r hr).trans held⟩
  · rintro ⟨r, hr, self, other, held⟩
    exact ⟨r, hr, self, other, (same r hr).symm.trans held⟩

theorem Inv.blocks_acyclic {c : Contention} (inv : c.Inv) (quiescent : c.Quiescent)
    (a : TransactionId) : ¬Relation.TransGen c.Blocks a a := fun cycle =>
  inv.acyclic ⟨a, Relation.TransGen.mono
    (fun a b blocks => (inv.blocks_iff quiescent a b).mp blocks) a a cycle⟩

/-- If everybody who blocks a transaction, directly or not, were suspended, each of them would be
blocked by another one, and finitely many could not avoid a cycle. -/
theorem Inv.reaches_free {c : Contention} (inv : c.Inv) (quiescent : c.Quiescent)
    {r : Suspended} (hr : r ∈ c.suspended) :
    ∃ b, Relation.TransGen c.Blocks r.txn b ∧ ¬c.isSuspended b := by
  have blocked : ∀ s ∈ c.suspended, ∃ b, c.Blocks s.txn b := by
    intro s hs
    obtain ⟨b, other, held⟩ := inv.refused s hs
    have now : c.pool.locks.holds b s.page :=
      (congrArg Option.isSome (quiescent s hs b s.page)).symm.trans held
    exact ⟨b, s, hs, rfl, other, now⟩
  by_contra none_free
  push Not at none_free
  obtain ⟨b, hb⟩ := blocked r hr
  have listed : ∀ a, Relation.TransGen c.Blocks r.txn a → a ∈ c.suspended.map Suspended.txn := by
    intro a path
    obtain ⟨s, hs, same⟩ := (c.isSuspended_iff a).mp (none_free a path)
    exact List.mem_map.mpr ⟨s, hs, same⟩
  obtain ⟨a, cycle⟩ := Peeling.exists_cycle_of_no_source
    (R := Function.swap c.Blocks) (S := fun b => Relation.TransGen c.Blocks r.txn b) listed
    (fun a path => by
      obtain ⟨s, hs, rfl⟩ := (c.isSuspended_iff a).mp (none_free a path)
      obtain ⟨d, hd⟩ := blocked s hs
      exact ⟨d, path.tail hd, hd⟩)
    (Relation.TransGen.single hb)
  exact inv.blocks_acyclic quiescent a (Relation.transGen_swap.mp cycle)

/-- Edges lead away only from suspended transactions. When every suspended request was refused
by the locks as they are now, the edges are the real blocking relation, nobody waits for itself,
and along the blocking relation every suspended transaction reaches one that is not suspended. -/
theorem no_deadlock_unnoticed (pool : Pool) (actions : List LockAction) :
    let c := (start pool).run actions
    (∀ txn, c.pool.waits.waitsFor txn ≠ [] → c.isSuspended txn) ∧
    (c.Quiescent →
      (∀ a b, c.Blocks a b ↔ b ∈ c.pool.waits.waitsFor a) ∧
      (∀ a, ¬Relation.TransGen c.Blocks a a) ∧
      (∀ r ∈ c.suspended, ∃ b, Relation.TransGen c.Blocks r.txn b ∧ ¬c.isSuspended b)) := by
  intro c
  have inv : c.Inv := inv_run actions (inv_start pool)
  refine ⟨fun txn some_edge => ?_, fun quiescent => ⟨inv.blocks_iff quiescent,
    inv.blocks_acyclic quiescent, fun r hr => inv.reaches_free quiescent hr⟩⟩
  by_contra free
  exact some_edge (List.eq_nil_iff_forall_not_mem.mpr (inv.no_edges free))

/-- Two sharers of a page both want it for themselves. The second one is the victim, so the first
waits for it, and a third transaction that waits for both reaches it, too. -/
theorem upgrades_reach_victim :
    let c := (start ⟨default, .empty, #[], #[], .empty, .empty, .empty 1⟩).run
      [.request ⟨1⟩ ⟨⟨7⟩, 0⟩ .shared, .request ⟨2⟩ ⟨⟨7⟩, 0⟩ .shared,
        .request ⟨1⟩ ⟨⟨7⟩, 0⟩ .exclusive, .request ⟨2⟩ ⟨⟨7⟩, 0⟩ .exclusive,
        .request ⟨3⟩ ⟨⟨7⟩, 0⟩ .exclusive, .retry ⟨1⟩]
    c.Quiescent ∧ c.isSuspended ⟨3⟩ ∧
      ∃ b, Relation.TransGen c.Blocks ⟨3⟩ b ∧ ¬c.isSuspended b := by
  intro c
  have refusals : c.suspended.map Suspended.refusedBy = [c.pool.locks, c.pool.locks] := rfl
  have quiescent : c.Quiescent := by
    intro r hr txn page
    have listed := List.mem_map_of_mem (f := Suspended.refusedBy) hr
    rw [refusals] at listed
    rw [show r.refusedBy = c.pool.locks by simpa using listed]
  have third : c.isSuspended ⟨3⟩ := rfl
  obtain ⟨r, hr, same⟩ := (c.isSuspended_iff ⟨3⟩).mp third
  have reached := ((no_deadlock_unnoticed _ _).2 quiescent).2.2 r hr
  exact ⟨quiescent, third, same ▸ reached⟩

end Contention

end TransactionalPages
