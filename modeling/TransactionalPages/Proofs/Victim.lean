import TransactionalPages.Proofs.WaitFor

/-!
# Who is to blame for a cycle

A wait is tested against the whole graph, and whoever waits is the victim of any
cycle that is found. In a graph that had no cycle before this is just: every cycle
then leads through the waiting transaction, along one of its new edges to a holder
and from there back on edges that others had already. A victim keeps no edges, so
that the next wait meets a graph without cycles again.

An edge is known by its two ends. The order in which holders are listed, and how
often, shows neither in the answer nor in the edges that are left.
-/

namespace TransactionalPages

/-- What is told to a wait-for graph. -/
inductive WaitCall where
  | block (waiter : TransactionId) (holders : List TransactionId)
  | clear (txn : TransactionId)
  deriving DecidableEq, Repr

namespace WaitForGraph

def serve (g : WaitForGraph) : WaitCall → WaitForGraph
  | .block waiter holders => (g.block waiter holders).1
  | .clear txn => g.clear txn

/-- Serves calls one after another. -/
def serveAll (g : WaitForGraph) (calls : List WaitCall) : WaitForGraph := calls.foldl serve g

/-- There is a path of one edge or more. -/
def Reaches (g : WaitForGraph) : TransactionId → TransactionId → Prop :=
  Relation.TransGen (Peeling.Edge g.waitsFor)

/-- What a wait is answered, and which edges it leaves. -/
structure Judges (g : WaitForGraph) (waiter : TransactionId) (holders : List TransactionId) :
    Prop where
  victim_iff : (g.block waiter holders).2 = true ↔
    ∃ holder ∈ holders, holder ≠ waiter ∧ (g.clear waiter).Reaches holder waiter
  closes : (g.block waiter holders).2 = true → (g.refresh waiter holders).Reaches waiter waiter
  through : ∀ a, (g.refresh waiter holders).Reaches a a →
    (g.refresh waiter holders).Reaches a waiter ∧ (g.refresh waiter holders).Reaches waiter a
  others : ∀ a, a ≠ waiter → (g.block waiter holders).1.waitsFor a = g.waitsFor a
  cleared : (g.block waiter holders).2 = true → (g.block waiter holders).1.waitsFor waiter = []
  recorded : (g.block waiter holders).2 = false →
    ∀ b, b ∈ (g.block waiter holders).1.waitsFor waiter ↔ b ∈ holders ∧ b ≠ waiter
  same_holders : ∀ listed, (∀ b, b ∈ listed ↔ b ∈ holders) →
    (g.block waiter listed).2 = (g.block waiter holders).2 ∧
    (g.block waiter listed).1.waitsFor = (g.block waiter holders).1.waitsFor

variable {g h : WaitForGraph} {waiter a b : TransactionId} {holders : List TransactionId}

/-! ## Edges by their ends -/

/-- The edges that lead away from a transaction are listed in order, so that their targets
determine the list. -/
theorem waitsFor_ext (same : ∀ b, b ∈ g.waitsFor a ↔ b ∈ h.waitsFor a) :
    g.waitsFor a = h.waitsFor a :=
  Lookup.eq_of_ordered Std.TreeSet.ordered_toList Std.TreeSet.ordered_toList same

theorem hasCycle_congr (same : g.waitsFor = h.waitsFor) : g.hasCycle = h.hasCycle := by
  rw [Bool.eq_iff_iff, hasCycle_iff, hasCycle_iff, same]

theorem refresh_congr {listed : List TransactionId} (same : ∀ b, b ∈ listed ↔ b ∈ holders) :
    (g.refresh waiter listed).waitsFor = (g.refresh waiter holders).waitsFor := by
  funext a
  refine waitsFor_ext fun b => ?_
  rw [mem_refresh, mem_refresh, same]

/-! ## Paths through the waiting transaction -/

/-- The edges of others are the same before a wait is recorded and after. -/
theorem edge_of_clear (edge : Peeling.Edge (g.clear waiter).waitsFor a b) :
    Peeling.Edge (g.refresh waiter holders).waitsFor a b := by
  obtain ⟨other, old⟩ := (mem_clear g waiter a b).mp edge
  refine (mem_refresh g waiter holders a b).mpr ?_
  rw [if_neg other]
  exact old

/-- An edge of a recorded wait is one of the waiting transaction or was there without it. -/
theorem edge_of_refresh (edge : Peeling.Edge (g.refresh waiter holders).waitsFor a b) :
    (a = waiter ∧ b ∈ holders ∧ b ≠ waiter) ∨ Peeling.Edge (g.clear waiter).waitsFor a b := by
  have told := (mem_refresh g waiter holders a b).mp edge
  by_cases own : a = waiter
  · rw [if_pos own] at told
    exact Or.inl ⟨own, told⟩
  · rw [if_neg own] at told
    exact Or.inr ((mem_clear g waiter a b).mpr ⟨own, told⟩)

theorem reaches_of_clear (path : (g.clear waiter).Reaches a b) :
    (g.refresh waiter holders).Reaches a b :=
  Relation.TransGen.mono (fun _ _ => edge_of_clear) a b path

/-- A path makes do without the edges of the waiting transaction, or it gets to that transaction
without them and goes on from there. -/
theorem reaches_apart_or_through (path : (g.refresh waiter holders).Reaches a b) :
    (g.clear waiter).Reaches a b ∨
      ((a = waiter ∨ (g.clear waiter).Reaches a waiter) ∧
        (g.refresh waiter holders).Reaches waiter b) := by
  induction path with
  | single edge =>
    rcases edge_of_refresh edge with ⟨rfl, _⟩ | old
    · exact Or.inr ⟨Or.inl rfl, .single edge⟩
    · exact Or.inl (.single old)
  | tail path edge ih =>
    rcases ih with apart | ⟨there, onward⟩
    · rcases edge_of_refresh edge with ⟨rfl, _⟩ | old
      · exact Or.inr ⟨Or.inr apart, .single edge⟩
      · exact Or.inl (apart.tail old)
    · exact Or.inr ⟨there, onward.tail edge⟩

/-- Where there was no cycle before, every cycle leads through the waiting transaction. -/
theorem Acyclic.cycle_through (acyclic : g.Acyclic)
    (cycle : (g.refresh waiter holders).Reaches a a) :
    (g.refresh waiter holders).Reaches a waiter ∧
      (g.refresh waiter holders).Reaches waiter a := by
  rcases reaches_apart_or_through cycle with apart | ⟨rfl | there, onward⟩
  · refine absurd ⟨a, apart⟩ (acyclic_of_subset acyclic fun c d edge => ?_)
    exact ((mem_clear g waiter c d).mp edge).2
  · exact ⟨onward, onward⟩
  · exact ⟨reaches_of_clear there, onward⟩

/-- The first edge of such a cycle leads to a holder, and the rest back by edges of others. -/
theorem reaches_self_iff : (g.refresh waiter holders).Reaches waiter waiter ↔
    ∃ holder ∈ holders, holder ≠ waiter ∧ (g.clear waiter).Reaches holder waiter := by
  constructor
  · intro cycle
    obtain ⟨holder, edge, back⟩ := Relation.TransGen.head'_iff.mp cycle
    rcases edge_of_refresh edge with ⟨_, listed, other⟩ | old
    · refine ⟨holder, listed, other, ?_⟩
      rcases Relation.reflTransGen_iff_eq_or_transGen.mp back with same | path
      · exact absurd same.symm other
      · rcases reaches_apart_or_through path with apart | ⟨same | there, _⟩
        · exact apart
        · exact absurd same other
        · exact there
    · exact absurd rfl ((mem_clear g waiter waiter holder).mp old).1
  · rintro ⟨holder, listed, other, path⟩
    refine Relation.TransGen.head ?_ (reaches_of_clear path)
    refine (mem_refresh g waiter holders waiter holder).mpr ?_
    rw [if_pos rfl]
    exact ⟨listed, other⟩

/-! ## The answers -/

theorem block_victim (g : WaitForGraph) (waiter : TransactionId) (holders : List TransactionId) :
    (g.block waiter holders).2 = (g.refresh waiter holders).hasCycle := by
  simp only [block]
  split
  next found => exact found.symm
  next none_found => exact (eq_false_of_ne_true none_found).symm

theorem Acyclic.victim_iff (acyclic : g.Acyclic) : (g.block waiter holders).2 = true ↔
    (g.refresh waiter holders).Reaches waiter waiter := by
  rw [block_victim, hasCycle_iff]
  constructor
  · rintro ⟨a, cycle⟩
    obtain ⟨there, back⟩ := acyclic.cycle_through cycle
    exact Relation.TransGen.trans back there
  · exact fun cycle => ⟨waiter, cycle⟩

theorem block_others (other : a ≠ waiter) :
    (g.block waiter holders).1.waitsFor a = g.waitsFor a := by
  refine waitsFor_ext fun b => ?_
  cases victim : (g.block waiter holders).2 with
  | true => simp only [mem_block_of_cycle victim, ne_eq, other, not_false_eq_true, true_and]
  | false => rw [mem_block_of_refused victim, if_neg other]

theorem block_congr {listed : List TransactionId} (same : ∀ b, b ∈ listed ↔ b ∈ holders) :
    (g.block waiter listed).2 = (g.block waiter holders).2 ∧
    (g.block waiter listed).1.waitsFor = (g.block waiter holders).1.waitsFor := by
  have answers : (g.block waiter listed).2 = (g.block waiter holders).2 := by
    rw [block_victim, block_victim, hasCycle_congr (refresh_congr same)]
  refine ⟨answers, funext fun a => waitsFor_ext fun b => ?_⟩
  cases victim : (g.block waiter holders).2 with
  | true => rw [mem_block_of_cycle (answers.trans victim), mem_block_of_cycle victim]
  | false =>
    rw [mem_block_of_refused (answers.trans victim), mem_block_of_refused victim, same]

theorem Acyclic.judges (acyclic : g.Acyclic) (waiter : TransactionId)
    (holders : List TransactionId) : g.Judges waiter holders where
  victim_iff := acyclic.victim_iff.trans reaches_self_iff
  closes := acyclic.victim_iff.mp
  through _ cycle := acyclic.cycle_through cycle
  others _ other := block_others other
  cleared victim := List.eq_nil_iff_forall_not_mem.mpr fun b edge =>
    ((mem_block_of_cycle victim waiter b).mp edge).1 rfl
  recorded refused b := by rw [mem_block_of_refused refused, if_pos rfl]
  same_holders _ same := block_congr same

/-! ## Any number of calls -/

theorem Acyclic.serve (acyclic : g.Acyclic) (call : WaitCall) : (g.serve call).Acyclic := by
  cases call with
  | block waiter holders => exact acyclic_block acyclic waiter holders
  | clear txn => exact acyclic_of_subset acyclic fun a b edge => ((mem_clear g txn a b).mp edge).2

theorem Acyclic.serveAll (acyclic : g.Acyclic) (calls : List WaitCall) :
    (g.serveAll calls).Acyclic := by
  induction calls generalizing g with
  | nil => exact acyclic
  | cons call rest ih => exact ih (acyclic.serve call)

/-- Whatever a graph was told before, nobody in it waits for itself, and a transaction is made a
victim exactly if it would come to wait for itself. -/
theorem waits_judged (calls : List WaitCall) :
    (WaitForGraph.empty.serveAll calls).Acyclic ∧
    ∀ waiter holders, (WaitForGraph.empty.serveAll calls).Judges waiter holders := by
  have acyclic := acyclic_empty.serveAll calls
  exact ⟨acyclic, acyclic.judges⟩

end WaitForGraph

end TransactionalPages
