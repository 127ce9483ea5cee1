import Mathlib.Algebra.BigOperators.Group.List.Basic
import Mathlib.Data.List.Chain
import Mathlib.Data.List.Cycle
import TransactionalPages.Proofs.WaitFor

/-!
# The cycle check of a wait-for graph

The edges of a graph are read off the changes that built it: an edge stands if
it was added and the transaction it leads from was not removed afterwards. The
check finds a cycle exactly when some of the standing edges form one that comes
by no transaction twice.

The order in which the transactions and their targets are gone through is left
open. In every order, no degree is lowered that is zero already, no transaction
becomes ready twice, and the answer is the same. The states of a peeling are
followed edge by edge, together with everybody who has been ready so far; only
what was appended to the queue is entered there.
-/

/-! ## Simple cycles -/

namespace TransactionalPages.Peeling

/-- What comes by the same transaction twice can be split there. -/
theorem exists_repeated {walk : List TransactionId} (repeated : ¬walk.Nodup) :
    ∃ before a between after, walk = before ++ a :: (between ++ a :: after) := by
  induction walk with
  | nil => exact absurd List.nodup_nil repeated
  | cons a walk ih =>
    by_cases again : a ∈ walk
    · obtain ⟨between, after, rfl⟩ := List.append_of_mem again
      exact ⟨[], a, between, after, rfl⟩
    · obtain ⟨before, b, between, after, rfl⟩ :=
        ih fun distinct => repeated (List.nodup_cons.mpr ⟨again, distinct⟩)
      exact ⟨a :: before, b, between, after, rfl⟩

/-- A closed walk contains one that comes by no transaction twice: between two visits there is a
shorter closed walk. -/
theorem exists_cycle_of_walk {R : TransactionId → TransactionId → Prop} (n : Nat)
    {a : TransactionId} {walk : List TransactionId} (short : walk.length = n)
    (closed : (a :: (walk ++ [a])).IsChain R) :
    ∃ c : Cycle TransactionId, c ≠ Cycle.nil ∧ c.Nodup ∧ c.Chain R := by
  induction n using Nat.strong_induction_on generalizing a walk with
  | _ n ih =>
    by_cases distinct : (a :: walk).Nodup
    · exact ⟨↑(a :: walk), by simp, distinct, (Cycle.chain_coe_cons R a walk).mpr closed⟩
    · obtain ⟨before, b, between, after, split⟩ := exists_repeated distinct
      have shorter : between.length < n := by
        have lengths := congrArg List.length split
        simp only [List.length_cons, List.length_append] at lengths
        omega
      have whole : a :: (walk ++ [a]) = before ++ (b :: (between ++ [b]) ++ (after ++ [a])) := by
        rw [← List.cons_append, split]
        simp
      rw [whole] at closed
      have loop := closed.right_of_append.left_of_append
      exact ih between.length shorter rfl loop

/-- Without edges from a transaction to itself, whoever can be reached from itself lies behind a
cycle of two or more transactions. -/
theorem cyclic_iff_cycle {waitsFor : TransactionId → List TransactionId}
    (irreflexive : ∀ a, a ∉ waitsFor a) :
    Cyclic waitsFor ↔
      ∃ c : Cycle TransactionId, c.Nodup ∧ 2 ≤ c.length ∧ c.Chain (Edge waitsFor) := by
  constructor
  · rintro ⟨a, path⟩
    obtain ⟨b, first, rest⟩ := Relation.TransGen.head'_iff.mp path
    obtain ⟨walk, chain, ends⟩ := List.exists_isChain_cons_of_relationReflTransGen rest
    have closed : (a :: (b :: walk).dropLast ++ [a]).IsChain (Edge waitsFor) := by
      have whole : (b :: walk).dropLast ++ [a] = b :: walk := by
        rw [← ends]
        exact List.dropLast_append_getLast (List.cons_ne_nil b walk)
      rw [List.cons_append, whole]
      exact List.isChain_cons_cons.mpr ⟨first, chain⟩
    obtain ⟨c, nonempty, distinct, cycle⟩ := exists_cycle_of_walk _ rfl closed
    refine ⟨c, distinct, ?_, cycle⟩
    induction c using Cycle.induction_on with
    | nil => exact absurd rfl nonempty
    | cons d l =>
      cases l with
      | nil => exact absurd ((Cycle.chain_singleton _ d).mp cycle) (irreflexive d)
      | cons e l => simp
  · rintro ⟨c, -, long, cycle⟩
    induction c using Cycle.induction_on with
    | nil => simp at long
    | cons a l =>
      have far := cycle.imp fun b d edge => Relation.TransGen.single (r := Edge waitsFor) edge
      exact ⟨a, Cycle.chain_iff_pairwise.mp far a (by simp) a (by simp)⟩

/-! ## Counting in another order -/

/-- Those without targets may be left out when degrees are counted. -/
theorem waiters_filter (listed : List TransactionId)
    (waitsFor : TransactionId → List TransactionId) (b : TransactionId) :
    waiters (listed.filter fun a => waitsFor a ≠ []) waitsFor b = waiters listed waitsFor b := by
  induction listed with
  | nil => rfl
  | cons a listed ih =>
    by_cases idle : waitsFor a = []
    · rw [List.filter_cons_of_neg (by simpa using idle), ih]
      simp [waiters, idle]
    · rw [List.filter_cons_of_pos (by simpa using idle)]
      simp only [waiters, List.map_cons, List.sum_cons] at ih ⊢
      rw [ih]

/-- Every listing of all who wait gives the same degrees. -/
theorem waiters_eq {listed nodes : List TransactionId}
    {waitsFor : TransactionId → List TransactionId} (distinct : listed.Nodup)
    (distinct' : nodes.Nodup) (all : ∀ a, ∀ b ∈ waitsFor a, a ∈ listed)
    (all' : ∀ a, ∀ b ∈ waitsFor a, a ∈ nodes) (b : TransactionId) :
    waiters listed waitsFor b = waiters nodes waitsFor b := by
  rw [← waiters_filter listed, ← waiters_filter nodes]
  have same : (listed.filter fun a => waitsFor a ≠ []).Perm
      (nodes.filter fun a => waitsFor a ≠ []) := by
    refine (List.perm_ext_iff_of_nodup (distinct.filter _) (distinct'.filter _)).mpr fun a => ?_
    simp only [List.mem_filter, decide_eq_true_eq]
    refine and_congr_left fun waits => ?_
    obtain ⟨c, hc⟩ := List.exists_mem_of_ne_nil _ waits
    exact iff_of_true (all a c hc) (all' a c hc)
  exact (same.map _).sum_eq

/-! ## Runs that are over -/

variable {waitsFor : TransactionId → List TransactionId}

theorem run_of_ended {p : Peeling} (ended : p.ready = []) (n : Nat) : run waitsFor n p = p := by
  cases n with
  | zero => rfl
  | succ n => simp only [run, ended]

theorem run_add (m n : Nat) (p : Peeling) :
    run waitsFor (m + n) p = run waitsFor n (run waitsFor m p) := by
  induction m generalizing p with
  | zero => rw [Nat.zero_add]; rfl
  | succ m ih =>
    rw [Nat.succ_add]
    simp only [run]
    cases hr : p.ready with
    | nil => exact (run_of_ended hr n).symm
    | cons a ready => exact ih _

end TransactionalPages.Peeling

namespace TransactionalPages.WaitForGraph

open Peeling

/-! ## The changes that build a graph -/

inductive Change where
  | add (waiter holder : TransactionId)
  | remove (txn : TransactionId)
  deriving DecidableEq

def undergo (g : WaitForGraph) : Change → WaitForGraph
  | .add waiter holder => g.addEdge waiter holder
  | .remove txn => g.clear txn

def built (changes : List Change) : WaitForGraph := changes.foldl undergo empty

/-- One transaction was said to wait for another, and was not removed since. -/
def Stands (changes : List Change) (a b : TransactionId) : Prop :=
  a ≠ b ∧ ∃ before after, changes = before ++ .add a b :: after ∧ .remove a ∉ after

theorem exists_since_concat {changes : List Change} {last wanted unwanted : Change} :
    (∃ before after, changes ++ [last] = before ++ wanted :: after ∧ unwanted ∉ after) ↔
      last = wanted ∨ (last ≠ unwanted ∧
        ∃ before after, changes = before ++ wanted :: after ∧ unwanted ∉ after) := by
  constructor
  · rintro ⟨before, after, split, since⟩
    rcases List.eq_nil_or_concat' after with rfl | ⟨after, c, rfl⟩
    · exact Or.inl (List.singleton_inj.mp (List.append_inj' split rfl).2)
    · rw [← List.cons_append, ← List.append_assoc] at split
      obtain ⟨same, final⟩ := List.append_inj' split rfl
      cases final
      rw [List.mem_append, List.mem_singleton] at since
      exact Or.inr ⟨fun h => since (Or.inr h.symm),
        before, after, same, fun h => since (Or.inl h)⟩
  · rintro (rfl | ⟨other, before, after, rfl, since⟩)
    · exact ⟨changes, [], rfl, List.not_mem_nil⟩
    · refine ⟨before, after ++ [last], by simp, fun h => ?_⟩
      rcases List.mem_append.mp h with h | h
      · exact since h
      · exact other (List.mem_singleton.mp h).symm

theorem mem_built (changes : List Change) (a b : TransactionId) :
    b ∈ (built changes).waitsFor a ↔ Stands changes a b := by
  induction changes using List.reverseRecOn with
  | nil => simp [built, Stands]
  | append_singleton changes last ih =>
    have step : built (changes ++ [last]) = (built changes).undergo last := by simp [built]
    rw [step, Stands, exists_since_concat]
    cases last with
    | add waiter holder =>
      rw [undergo, mem_addEdge, ih, Stands]
      constructor
      · rintro (⟨rfl, rfl, differ⟩ | ⟨differ, stands⟩)
        · exact ⟨differ.symm, Or.inl rfl⟩
        · exact ⟨differ, Or.inr ⟨nofun, stands⟩⟩
      · rintro ⟨differ, same | ⟨-, stands⟩⟩
        · cases same
          exact Or.inl ⟨rfl, rfl, differ.symm⟩
        · exact Or.inr ⟨differ, stands⟩
    | remove txn =>
      rw [undergo, mem_clear, ih, Stands]
      constructor
      · rintro ⟨other, differ, stands⟩
        refine ⟨differ, Or.inr ⟨fun same => other ?_, stands⟩⟩
        cases same
        rfl
      · rintro ⟨differ, same | ⟨other, stands⟩⟩
        · cases same
        · exact ⟨fun same => other (by rw [same]), differ, stands⟩

/-! ## Going through a graph in any order -/

/-- An order in which everybody who waits, everybody at either end of an edge, and the targets of
each of them are gone through. -/
structure Listing (g : WaitForGraph) where
  waiting : List TransactionId
  nodes : List TransactionId
  targets : TransactionId → List TransactionId
  waiting_nodup : waiting.Nodup
  waiting_all : ∀ a b, b ∈ g.waitsFor a → a ∈ waiting
  nodes_perm : nodes.Perm g.nodes
  targets_perm : ∀ a, (targets a).Perm (g.waitsFor a)

namespace Listing

variable {g : WaitForGraph}

/-- The order in which the check itself goes through a graph. -/
def own (g : WaitForGraph) : Listing g where
  waiting := g.nodes
  nodes := g.nodes
  targets := g.waitsFor
  waiting_nodup := g.nodes_nodup
  waiting_all a b edge := (g.ends_mem_nodes a b edge).1
  nodes_perm := .refl _
  targets_perm _ := .refl _

def degrees (l : Listing g) : Std.TreeMap TransactionId Nat :=
  Peeling.degrees l.waiting l.targets

def start (l : Listing g) : Peeling :=
  ⟨l.degrees, l.nodes.filter fun txn => l.degrees.getD txn 0 = 0, 0⟩

def run (l : Listing g) (n : Nat) : Peeling := Peeling.run l.targets n l.start

def hasCycle (l : Listing g) : Bool := (l.run l.nodes.length).taken < l.nodes.length

theorem own_hasCycle (g : WaitForGraph) : (own g).hasCycle = g.hasCycle := rfl

variable {l : Listing g}

theorem mem_targets {a b : TransactionId} : b ∈ l.targets a ↔ b ∈ g.waitsFor a :=
  (l.targets_perm a).mem_iff

theorem nodup_nodes : l.nodes.Nodup := l.nodes_perm.nodup_iff.mpr g.nodes_nodup

theorem closed (a b : TransactionId) (edge : b ∈ l.targets a) : a ∈ l.nodes ∧ b ∈ l.nodes := by
  obtain ⟨ha, hb⟩ := g.ends_mem_nodes a b (mem_targets.mp edge)
  exact ⟨l.nodes_perm.mem_iff.mpr ha, l.nodes_perm.mem_iff.mpr hb⟩

theorem degrees_getD (b : TransactionId) :
    l.degrees.getD b 0 = waiters l.nodes l.targets b := by
  rw [degrees, Peeling.degrees_getD]
  exact waiters_eq l.waiting_nodup l.nodup_nodes
    (fun a b edge => l.waiting_all a b (mem_targets.mp edge))
    (fun a b edge => (l.closed a b edge).1) b

theorem peels_start : Peels l.nodes l.targets [] [] l.start where
  distinct := by simpa [start] using l.nodup_nodes.filter _
  within a ha := by
    simp only [start, List.nil_append, List.mem_filter] at ha
    exact ha.1
  counted := rfl
  degree b := by
    rw [rest_nil]
    simpa [start] using degrees_getD b
  settled b hb := by simp [start, hb]

theorem decides : l.hasCycle = true ↔ Cyclic g.waitsFor := by
  rw [hasCycle, decide_eq_true_eq]
  refine (peels_start.falls_short_iff l.nodup_nodes l.closed).trans ?_
  have same : Edge l.targets = Edge g.waitsFor := by
    funext a b
    exact propext mem_targets
  rw [Cyclic, Cyclic, same]

/-! ## The states of a peeling -/

/-- A peeling comes by a state. Some have been ready so far, and some degrees have yet to be
lowered before the next one is taken away. -/
inductive Passes (l : Listing g) :
    List TransactionId → List TransactionId → Peeling → Prop where
  | start : l.Passes l.start.ready [] l.start
  | take {entered : List TransactionId} {p : Peeling} {a : TransactionId}
      {ready : List TransactionId} (passed : l.Passes entered [] p) (next : p.ready = a :: ready) :
      l.Passes entered (l.targets a) { p with ready := ready, taken := p.taken + 1 }
  | lower {entered owed : List TransactionId} {b : TransactionId} {p : Peeling}
      (passed : l.Passes entered (b :: owed) p) :
      l.Passes (entered ++ (p.lower b).ready.drop p.ready.length) owed (p.lower b)

theorem lower_ready (p : Peeling) (b : TransactionId) :
    (p.lower b).ready = p.ready ++ (p.lower b).ready.drop p.ready.length := by
  simp only [Peeling.lower]
  split
  · simp
  · simp

/-- Those who have been ready are the ones that are away and the ones that are ready. -/
theorem Passes.peels {entered owed : List TransactionId} {p : Peeling}
    (passed : l.Passes entered owed p) :
    ∃ gone, Peels l.nodes l.targets gone owed p ∧ entered = gone ++ p.ready ∧
      ∀ b ∈ owed, b ∈ l.nodes := by
  induction passed with
  | start => exact ⟨[], peels_start, rfl, nofun⟩
  | @take entered p a ready passed next ih =>
    obtain ⟨gone, peels, same, -⟩ := ih
    refine ⟨gone ++ [a], peels.take l.nodup_nodes next, ?_, fun b hb => (l.closed a b hb).2⟩
    rw [same, next]
    simp
  | @lower entered owed b p passed ih =>
    obtain ⟨gone, peels, same, known⟩ := ih
    refine ⟨gone, peels.lower (known b List.mem_cons_self), ?_,
      fun c hc => known c (List.mem_cons_of_mem b hc)⟩
    rw [same, List.append_assoc, ← lower_ready]

theorem Passes.lowerAll {entered owed : List TransactionId} {p : Peeling}
    (passed : l.Passes entered owed p) :
    ∃ entered', l.Passes entered' [] (owed.foldl Peeling.lower p) := by
  induction owed generalizing entered p with
  | nil => exact ⟨entered, passed⟩
  | cons b owed ih => exact ih passed.lower

theorem Passes.run {entered : List TransactionId} {p : Peeling} (passed : l.Passes entered [] p)
    (n : Nat) : ∃ entered', l.Passes entered' [] (Peeling.run l.targets n p) := by
  induction n generalizing entered p with
  | zero => exact ⟨entered, passed⟩
  | succ n ih =>
    simp only [Peeling.run]
    cases next : p.ready with
    | nil => exact ⟨entered, passed⟩
    | cons a ready =>
      obtain ⟨entered', passed'⟩ := (passed.take next).lowerAll
      exact ih passed'

theorem run_ended {n : Nat} (long : l.nodes.length ≤ n) :
    (l.run n).ready = [] ∧ l.run n = l.run l.nodes.length := by
  obtain ⟨gone, -, ended⟩ :=
    l.peels_start.finished l.nodup_nodes fun a _ b hb => (l.closed a b hb).2
  obtain ⟨more, rfl⟩ := Nat.exists_eq_add_of_le long
  have settled : l.run (l.nodes.length + more) = l.run l.nodes.length := by
    rw [run, run_add]
    exact run_of_ended ended more
  exact ⟨by rw [settled]; exact ended, settled⟩

end Listing

/-! ## The check -/

/-- What the cycle check does with the graph that some changes have built. -/
structure Checks (changes : List Change) (g : WaitForGraph) : Prop where
  edges : ∀ a b, b ∈ g.waitsFor a ↔ Stands changes a b
  decides : g.hasCycle = true ↔
    ∃ c : Cycle TransactionId, c.Nodup ∧ 2 ≤ c.length ∧ c.Chain (Stands changes)
  orders : ∀ l : g.Listing, l.hasCycle = g.hasCycle
  followed : ∀ (l : g.Listing) n, ∃ entered, l.Passes entered [] (l.run n)
  positive : ∀ (l : g.Listing) entered b owed p,
    l.Passes entered (b :: owed) p → 0 < p.degree.getD b 0
  once : ∀ (l : g.Listing) entered owed p, l.Passes entered owed p →
    entered.Nodup ∧ (∀ a ∈ entered, a ∈ g.nodes) ∧ entered.length = p.taken + p.ready.length
  ends : ∀ (l : g.Listing) n, l.nodes.length ≤ n →
    (l.run n).ready = [] ∧ l.run n = l.run l.nodes.length

/-- Whatever changes have built a graph, the check finds a cycle exactly when the standing edges
form one. -/
theorem built_graph_is_checked (changes : List Change) : Checks changes (built changes) where
  edges := mem_built changes
  decides := by
    have standing : Edge (built changes).waitsFor = Stands changes := by
      funext a b
      exact propext (mem_built changes a b)
    rw [hasCycle_iff, cyclic_iff_cycle fun a edge => ((mem_built changes a a).mp edge).1 rfl,
      standing]
  orders l := by
    rw [← Listing.own_hasCycle, Bool.eq_iff_iff, l.decides, (Listing.own _).decides]
  followed _ n := Listing.Passes.start.run n
  positive _ _ _ _ _ passed := by
    obtain ⟨gone, peels, -⟩ := passed.peels
    exact peels.degree_pos
  once l _ _ _ passed := by
    obtain ⟨gone, peels, rfl, -⟩ := passed.peels
    refine ⟨peels.distinct, fun a ha => l.nodes_perm.mem_iff.mp (peels.within a ha), ?_⟩
    rw [List.length_append, peels.counted]
  ends _ _ long := Listing.run_ended long

/-- The transaction that closed the cycle is removed, and one behind the cycle goes on waiting. -/
example : (built [.add ⟨1⟩ ⟨2⟩, .add ⟨2⟩ ⟨1⟩, .add ⟨3⟩ ⟨1⟩]).hasCycle = true ∧
    (built [.add ⟨1⟩ ⟨2⟩, .add ⟨2⟩ ⟨1⟩, .add ⟨3⟩ ⟨1⟩, .remove ⟨2⟩]).hasCycle = false := by
  decide +kernel

end TransactionalPages.WaitForGraph
