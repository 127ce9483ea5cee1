import Mathlib.Algebra.GroupWithZero.Nat
import Mathlib.Data.Fintype.Pigeonhole
import Mathlib.Data.List.Nodup
import Mathlib.Logic.Relation
import TransactionalPages.Proofs.Lookup
import TransactionalPages.WaitFor

/-!
# Peeling decides whether there is a cycle

A peeling is described by the transactions that it has taken away so far. The
degree of a transaction counts the edges to it from those that are still there,
and the ones that are ready are exactly those of degree zero that are still
there. While the edges of a transaction that was just taken away are worked off,
the ones that remain to be done are still counted.

A set of transactions each of which is waited for by another one of the set is
never touched. The transactions that a finished peeling leaves behind are such a
set. The order in which transactions and edges are listed does not matter.
-/

namespace TransactionalPages.Peeling

/-- The edges from `nodes` to `b`, counted as often as they are listed. -/
def waiters (nodes : List TransactionId) (waitsFor : TransactionId → List TransactionId)
    (b : TransactionId) : Nat :=
  (nodes.map fun a => (waitsFor a).count b).sum

/-- The nodes that have not been taken away. -/
def rest (nodes taken : List TransactionId) : List TransactionId :=
  nodes.filter fun a => a ∉ taken

/-- What holds of a peeling that has taken `gone` away and has yet to lower the degrees of
`owed`. -/
structure Peels (nodes : List TransactionId) (waitsFor : TransactionId → List TransactionId)
    (gone owed : List TransactionId) (p : Peeling) : Prop where
  distinct : (gone ++ p.ready).Nodup
  within : ∀ a ∈ gone ++ p.ready, a ∈ nodes
  counted : p.taken = gone.length
  degree : ∀ b, p.degree.getD b 0 = waiters (rest nodes gone) waitsFor b + owed.count b
  settled : ∀ b ∈ nodes, p.degree.getD b 0 = 0 ↔ b ∈ gone ++ p.ready

variable {nodes gone owed : List TransactionId}
  {waitsFor : TransactionId → List TransactionId} {p : Peeling}

/-! ## The degrees at the start -/

theorem raise_getD (targets : List TransactionId) (degree : Std.TreeMap TransactionId Nat)
    (b : TransactionId) :
    (raise degree targets).getD b 0 = degree.getD b 0 + targets.count b := by
  induction targets generalizing degree with
  | nil => simp [raise]
  | cons a targets ih =>
    have step : (raise degree (a :: targets)).getD b 0 =
        (degree.insert a (degree.getD a 0 + 1)).getD b 0 + targets.count b := ih _
    rw [step, Lookup.getD_insert, List.count_cons]
    by_cases same : b = a
    · subst b
      simp
      omega
    · have other : (a == b) = false := by simpa using Ne.symm same
      simp [same, other]

theorem foldl_raise_getD (listed : List TransactionId) (degree : Std.TreeMap TransactionId Nat)
    (b : TransactionId) :
    (listed.foldl (fun degree a => raise degree (waitsFor a)) degree).getD b 0 =
      degree.getD b 0 + waiters listed waitsFor b := by
  induction listed generalizing degree with
  | nil => simp [waiters]
  | cons a listed ih =>
    rw [List.foldl_cons, ih, raise_getD]
    simp only [waiters, List.map_cons, List.sum_cons]
    omega

theorem degrees_getD (b : TransactionId) :
    (degrees nodes waitsFor).getD b 0 = waiters nodes waitsFor b := by
  rw [degrees, foldl_raise_getD]
  simp

theorem rest_nil : rest nodes [] = nodes := by
  simp [rest]

theorem peels_start (distinct : nodes.Nodup) :
    Peels nodes waitsFor [] [] (start nodes waitsFor) where
  distinct := by simpa [start] using distinct.filter _
  within a ha := by
    simp only [start, List.nil_append, List.mem_filter] at ha
    exact ha.1
  counted := rfl
  degree b := by
    rw [rest_nil]
    simpa [start] using degrees_getD b
  settled b hb := by simp [start, hb]

/-! ## One step -/

/-- Taking a node away turns the edges from it into edges that are yet to be worked off. -/
theorem waiters_rest (distinct : nodes.Nodup) {a : TransactionId} (ha : a ∈ nodes)
    (fresh : a ∉ gone) (b : TransactionId) :
    waiters (rest nodes gone) waitsFor b =
      waiters (rest nodes (gone ++ [a])) waitsFor b + (waitsFor a).count b := by
  induction nodes with
  | nil => cases ha
  | cons c nodes ih =>
    rw [List.nodup_cons] at distinct
    by_cases same : c = a
    · subst c
      have unchanged : rest nodes (gone ++ [a]) = rest nodes gone := by
        apply List.filter_congr
        intro d hd
        have hne : d ≠ a := fun h => distinct.1 (h ▸ hd)
        simp [hne]
      have left : rest (a :: nodes) (gone ++ [a]) = rest nodes gone := by
        rw [← unchanged]
        simp [rest]
      have before : rest (a :: nodes) gone = a :: rest nodes gone := by
        simp [rest, fresh]
      rw [left, before]
      simp only [waiters, List.map_cons, List.sum_cons]
      omega
    · have later := ih distinct.2 (by
        rcases List.mem_cons.mp ha with h | h
        · exact absurd h.symm same
        · exact h)
      by_cases away : c ∈ gone
      · simpa [rest, away] using later
      · have hc : waiters (rest (c :: nodes) gone) waitsFor b =
            (waitsFor c).count b + waiters (rest nodes gone) waitsFor b := by
          simp [rest, away, waiters]
        have hc' : waiters (rest (c :: nodes) (gone ++ [a])) waitsFor b =
            (waitsFor c).count b + waiters (rest nodes (gone ++ [a])) waitsFor b := by
          simp [rest, away, same, waiters]
        omega

theorem Peels.take (h : Peels nodes waitsFor gone [] p) (distinct : nodes.Nodup)
    {a : TransactionId} {ready : List TransactionId} (hr : p.ready = a :: ready) :
    Peels nodes waitsFor (gone ++ [a]) (waitsFor a)
      { p with ready := ready, taken := p.taken + 1 } := by
  have all : gone ++ p.ready = (gone ++ [a]) ++ ready := by simp [hr]
  have ha : a ∈ nodes := h.within a (by simp [hr])
  have fresh : a ∉ gone := by
    have apart := h.distinct
    rw [hr, List.nodup_append] at apart
    intro hg
    exact apart.2.2 a hg a List.mem_cons_self rfl
  exact {
    distinct := by simpa [all] using h.distinct
    within := by simpa [all] using h.within
    counted := by simp [h.counted]
    degree := fun b => by
      have before := h.degree b
      rw [waiters_rest distinct ha fresh b] at before
      simpa using before
    settled := fun b hb => by simpa [all] using h.settled b hb }

/-- An edge that is yet to be worked off is still counted, so the degree does not fall below
zero. -/
theorem Peels.degree_pos {b : TransactionId} (h : Peels nodes waitsFor gone (b :: owed) p) :
    0 < p.degree.getD b 0 := by
  have counted := h.degree b
  rw [List.count_cons_self] at counted
  omega

theorem Peels.lower {b : TransactionId} (h : Peels nodes waitsFor gone (b :: owed) p)
    (hb : b ∈ nodes) : Peels nodes waitsFor gone owed (p.lower b) := by
  have positive := h.degree_pos
  have waiting : b ∉ gone ++ p.ready := fun hm => by
    have := (h.settled b hb).mpr hm
    omega
  have degree : ∀ c, (p.lower b).degree.getD c 0 =
      if c = b then p.degree.getD b 0 - 1 else p.degree.getD c 0 :=
    fun c => Lookup.getD_insert ..
  have ready : (p.lower b).ready = if p.degree.getD b 0 - 1 = 0 then p.ready ++ [b] else p.ready :=
    rfl
  constructor
  · rw [ready]
    split
    · rw [← List.append_assoc]
      exact h.distinct.append (List.nodup_singleton b) (by simpa using waiting)
    · exact h.distinct
  · intro c hc
    rw [ready] at hc
    split at hc
    · rw [← List.append_assoc, List.mem_append, List.mem_singleton] at hc
      rcases hc with hc | rfl
      · exact h.within c hc
      · exact hb
    · exact h.within c hc
  · exact h.counted
  · intro c
    rw [degree]
    have counted := h.degree c
    rw [List.count_cons] at counted
    by_cases same : c = b
    · subst c
      simp at counted ⊢
      omega
    · have other : (b == c) = false := by simpa using Ne.symm same
      simpa [same, other] using counted
  · intro c hc
    rw [degree, ready]
    by_cases same : c = b
    · subst c
      rw [if_pos rfl]
      by_cases last : p.degree.getD b 0 - 1 = 0
      · simp [last]
      · rw [if_neg last]
        exact ⟨fun h => absurd h last, fun h => absurd h waiting⟩
    · rw [if_neg same, h.settled c hc]
      by_cases last : p.degree.getD b 0 - 1 = 0
      · simp [last, same]
      · simp [last]

theorem Peels.lowerAll (h : Peels nodes waitsFor gone owed p) (known : ∀ b ∈ owed, b ∈ nodes) :
    Peels nodes waitsFor gone [] (owed.foldl Peeling.lower p) := by
  induction owed generalizing p with
  | nil => exact h
  | cons b owed ih =>
    exact ih (h.lower (known b List.mem_cons_self))
      (fun c hc => known c (List.mem_cons_of_mem b hc))

/-! ## The whole run -/

/-- A run of `n` steps ends early only when nobody is ready. -/
theorem Peels.run (distinct : nodes.Nodup) (closed : ∀ a ∈ nodes, ∀ b ∈ waitsFor a, b ∈ nodes)
    (n : Nat) (h : Peels nodes waitsFor gone [] p) :
    ∃ gone', Peels nodes waitsFor gone' [] (Peeling.run waitsFor n p) ∧
      ((Peeling.run waitsFor n p).ready = [] ∨ gone'.length = gone.length + n) := by
  induction n generalizing gone p with
  | zero => exact ⟨gone, h, Or.inr rfl⟩
  | succ n ih =>
    simp only [Peeling.run]
    cases hr : p.ready with
    | nil => exact ⟨gone, h, Or.inl hr⟩
    | cons a ready =>
      have ha : a ∈ nodes := h.within a (by simp [hr])
      obtain ⟨gone', h', ended⟩ := ih ((h.take distinct hr).lowerAll (closed a ha))
      refine ⟨gone', h', ended.imp_right fun long => ?_⟩
      rw [long, List.length_append]
      simp
      omega

/-- With as many steps as there are nodes, nobody is ready in the end. -/
theorem Peels.finished (h : Peels nodes waitsFor [] [] p) (distinct : nodes.Nodup)
    (closed : ∀ a ∈ nodes, ∀ b ∈ waitsFor a, b ∈ nodes) :
    ∃ gone, Peels nodes waitsFor gone [] (Peeling.run waitsFor nodes.length p) ∧
      (Peeling.run waitsFor nodes.length p).ready = [] := by
  obtain ⟨gone, h', ended⟩ := h.run distinct closed nodes.length
  refine ⟨gone, h', ended.elim id fun long => ?_⟩
  have bound := (List.subperm_of_subset h'.distinct h'.within).length_le
  rw [List.length_append] at bound
  simp only [List.length_nil, Nat.zero_add] at long
  exact List.length_eq_zero_iff.mp (by omega)

theorem waiters_pos_iff {listed : List TransactionId} {b : TransactionId} :
    0 < waiters listed waitsFor b ↔ ∃ a ∈ listed, b ∈ waitsFor a := by
  rw [waiters, List.sum_pos_iff_exists_pos_nat]
  simp [List.count_pos_iff]

/-- Nobody of a set is ever ready if everybody of the set is waited for from within it. -/
theorem Peels.avoids_run (distinct : nodes.Nodup)
    (closed : ∀ a ∈ nodes, ∀ b ∈ waitsFor a, b ∈ nodes) {S : TransactionId → Prop}
    (inner : ∀ b, S b → ∃ a ∈ nodes, S a ∧ b ∈ waitsFor a) (n : Nat)
    (h : Peels nodes waitsFor gone [] p) (avoids : ∀ a ∈ gone, ¬S a) :
    ∃ gone', Peels nodes waitsFor gone' [] (Peeling.run waitsFor n p) ∧ ∀ a ∈ gone', ¬S a := by
  induction n generalizing gone p with
  | zero => exact ⟨gone, h, avoids⟩
  | succ n ih =>
    simp only [Peeling.run]
    cases hr : p.ready with
    | nil => exact ⟨gone, h, avoids⟩
    | cons a ready =>
      have ha : a ∈ nodes := h.within a (by simp [hr])
      apply ih ((h.take distinct hr).lowerAll (closed a ha))
      intro c hc
      rw [List.mem_append, List.mem_singleton] at hc
      rcases hc with hc | rfl
      · exact avoids c hc
      · intro hs
        -- The one who waits for it from within the set is still there, so it is not of degree zero.
        obtain ⟨d, hd, hsd, edge⟩ := inner c hs
        have present : d ∈ rest nodes gone := by
          simp only [rest, List.mem_filter, decide_eq_true_eq]
          exact ⟨hd, fun hg => avoids d hg hsd⟩
        have positive := waiters_pos_iff.mpr ⟨d, present, edge⟩
        have zero := (h.settled c ha).mpr (by simp [hr])
        rw [h.degree c] at zero
        simp at zero
        omega

/-- Everybody of a finished peeling who was left behind is waited for by somebody left behind. -/
theorem Peels.left_waited_for (h : Peels nodes waitsFor gone [] p) (ended : p.ready = [])
    {b : TransactionId} (hb : b ∈ nodes) (left : b ∉ gone) :
    ∃ a ∈ nodes, a ∉ gone ∧ b ∈ waitsFor a := by
  have nonzero : p.degree.getD b 0 ≠ 0 := fun zero =>
    left (by simpa [ended] using (h.settled b hb).mp zero)
  rw [h.degree b] at nonzero
  obtain ⟨a, ha, edge⟩ := waiters_pos_iff.mp (Nat.pos_of_ne_zero (by simpa using nonzero))
  simp only [rest, List.mem_filter, decide_eq_true_eq] at ha
  exact ⟨a, ha.1, ha.2, edge⟩

/-! ## Cycles -/

/-- One waits for the other. -/
def Edge (waitsFor : TransactionId → List TransactionId) (a b : TransactionId) : Prop :=
  b ∈ waitsFor a

def Cyclic (waitsFor : TransactionId → List TransactionId) : Prop :=
  ∃ a, Relation.TransGen (Edge waitsFor) a a

/-- In a finite set without a source there is a cycle. -/
theorem exists_cycle_of_no_source {R : TransactionId → TransactionId → Prop}
    {S : TransactionId → Prop} (finite : ∀ a, S a → a ∈ nodes)
    (inner : ∀ b, S b → ∃ a, S a ∧ R a b) {b : TransactionId} (hb : S b) :
    ∃ a, Relation.TransGen R a a := by
  choose! before hS hR using inner
  have stays : ∀ n, S (before^[n] b) := by
    intro n
    induction n with
    | zero => exact hb
    | succ n ih =>
      rw [Function.iterate_succ_apply']
      exact hS _ ih
  have back : ∀ m n, Relation.TransGen R (before^[m + n + 1] b) (before^[m] b) := by
    intro m n
    induction n with
    | zero =>
      rw [Nat.add_zero, Function.iterate_succ_apply']
      exact .single (hR _ (stays m))
    | succ n ih =>
      rw [Function.iterate_succ_apply']
      exact .head (hR _ (stays _)) ih
  obtain ⟨m, n, hne, same⟩ := Finite.exists_ne_map_eq_of_infinite
    (fun n => (⟨before^[n] b, finite _ (stays n)⟩ : {a // a ∈ nodes}))
  have same : before^[m] b = before^[n] b := congrArg Subtype.val same
  rcases Nat.lt_or_gt_of_ne hne with lt | lt
  · obtain ⟨k, rfl⟩ := Nat.exists_eq_add_of_lt lt
    exact ⟨_, same ▸ back m k⟩
  · obtain ⟨k, rfl⟩ := Nat.exists_eq_add_of_lt lt
    exact ⟨_, same ▸ back n k⟩

/-- Fewer than all are taken away exactly when there is a cycle. -/
theorem Peels.falls_short_iff (h : Peels nodes waitsFor [] [] p) (distinct : nodes.Nodup)
    (closed : ∀ a, ∀ b ∈ waitsFor a, a ∈ nodes ∧ b ∈ nodes) :
    (Peeling.run waitsFor nodes.length p).taken < nodes.length ↔ Cyclic waitsFor := by
  have targets : ∀ a ∈ nodes, ∀ b ∈ waitsFor a, b ∈ nodes := fun a _ b hb => (closed a b hb).2
  constructor
  · intro short
    obtain ⟨gone, h', ended⟩ := h.finished distinct targets
    rw [h'.counted] at short
    have apart : gone.Nodup := by simpa [ended] using h'.distinct
    obtain ⟨b, hb, left⟩ : ∃ b ∈ nodes, b ∉ gone := by
      by_contra all
      push Not at all
      have := (List.subperm_of_subset distinct all).length_le
      omega
    refine exists_cycle_of_no_source (S := fun b => b ∈ nodes ∧ b ∉ gone) (fun a ha => ha.1) ?_
      ⟨hb, left⟩
    intro c hc
    obtain ⟨a, ha, hg, edge⟩ := h'.left_waited_for ended hc.1 hc.2
    exact ⟨a, ⟨ha, hg⟩, edge⟩
  · rintro ⟨a, cycle⟩
    have inner : ∀ b, Relation.TransGen (Edge waitsFor) b b →
        ∃ c ∈ nodes, Relation.TransGen (Edge waitsFor) c c ∧ b ∈ waitsFor c := by
      intro b hb
      obtain ⟨c, path, edge⟩ := Relation.TransGen.tail'_iff.mp hb
      exact ⟨c, (closed c b edge).1, .head' edge path, edge⟩
    obtain ⟨gone, h', avoids⟩ := h.avoids_run distinct targets inner nodes.length (by simp)
    obtain ⟨c, hc, _, edge⟩ := inner a cycle
    have ha : a ∈ nodes := (closed c a edge).2
    have apart : (a :: gone).Nodup :=
      List.nodup_cons.mpr ⟨fun hg => avoids a hg cycle, (List.nodup_append.mp h'.distinct).1⟩
    have within : ∀ d ∈ a :: gone, d ∈ nodes := by
      intro d hd
      rcases List.mem_cons.mp hd with rfl | hd
      · exact ha
      · exact h'.within d (List.mem_append_left _ hd)
    have bound := (List.subperm_of_subset apart within).length_le
    rw [h'.counted]
    simp at bound
    omega

/-- Somebody is left behind exactly when there is a cycle, however the transactions and their
edges are listed. -/
theorem leavesRest_iff (distinct : nodes.Nodup)
    (closed : ∀ a, ∀ b ∈ waitsFor a, a ∈ nodes ∧ b ∈ nodes) :
    leavesRest nodes waitsFor = true ↔ Cyclic waitsFor := by
  simp only [leavesRest]
  rw [decide_eq_true_eq]
  exact (peels_start distinct).falls_short_iff distinct closed

end TransactionalPages.Peeling
