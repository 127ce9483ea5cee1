import TransactionalPages.Proofs.Peeling

/-!
# The edges of a wait-for graph

Each change of a wait-for graph is described by the edges that it leaves. A
recorded wait replaces the edges of one transaction and is taken back when it
closes a cycle, so that a graph without cycles stays one.
-/

namespace TransactionalPages.WaitForGraph

theorem mem_waitsFor (g : WaitForGraph) (a b : TransactionId) :
    b ∈ g.waitsFor a ↔ b ∈ g.targets a := Std.TreeSet.mem_toList

/-- No transaction waits, directly or through others, for itself. -/
def Acyclic (g : WaitForGraph) : Prop := ¬Peeling.Cyclic g.waitsFor

@[simp] theorem waitsFor_empty (a : TransactionId) : WaitForGraph.empty.waitsFor a = [] := rfl

theorem acyclic_of_subset {g h : WaitForGraph} (acyclic : g.Acyclic)
    (subset : ∀ a b, b ∈ h.waitsFor a → b ∈ g.waitsFor a) : h.Acyclic := by
  rintro ⟨a, cycle⟩
  exact acyclic ⟨a, Relation.TransGen.mono (fun a b edge => subset a b edge) a a cycle⟩

theorem acyclic_empty : WaitForGraph.empty.Acyclic := by
  rintro ⟨a, cycle⟩
  obtain ⟨b, _, edge⟩ := Relation.TransGen.tail'_iff.mp cycle
  simp [Peeling.Edge] at edge

/-! ## The changes -/

theorem waitsFor_clear (g : WaitForGraph) (txn a : TransactionId) :
    (g.clear txn).waitsFor a = if a = txn then [] else g.waitsFor a := by
  show ((g.edges.erase txn).getD a ∅).toList = _
  rw [Lookup.getD_erase]
  by_cases same : a = txn
  · rw [if_pos same, if_pos same]
    rfl
  · rw [if_neg same, if_neg same]
    rfl

theorem mem_clear (g : WaitForGraph) (txn a b : TransactionId) :
    b ∈ (g.clear txn).waitsFor a ↔ a ≠ txn ∧ b ∈ g.waitsFor a := by
  rw [mem_waitsFor, mem_waitsFor]
  show b ∈ (g.edges.erase txn).getD a ∅ ↔ a ≠ txn ∧ b ∈ g.edges.getD a ∅
  rw [Lookup.getD_erase]
  by_cases same : a = txn
  · simp [same]
  · simp [same]

theorem mem_addEdge (g : WaitForGraph) (waiter holder a b : TransactionId) :
    b ∈ (g.addEdge waiter holder).waitsFor a ↔
      (a = waiter ∧ b = holder ∧ b ≠ waiter) ∨ b ∈ g.waitsFor a := by
  rw [mem_waitsFor, mem_waitsFor]
  simp only [addEdge]
  by_cases self : waiter = holder
  · rw [if_pos self]
    exact ⟨Or.inr, fun h => h.elim (fun e => absurd (e.2.1.trans self.symm) e.2.2) id⟩
  · rw [if_neg self]
    show b ∈ (g.edges.insert waiter ((g.targets waiter).insert holder)).getD a ∅ ↔ _
    rw [Lookup.getD_insert]
    by_cases same : a = waiter
    · subst a
      rw [if_pos rfl, Lookup.mem_insert]
      exact or_congr_left ⟨fun h => ⟨rfl, h, fun e => self (e.symm.trans h)⟩, fun h => h.2.1⟩
    · rw [if_neg same]
      exact ⟨Or.inr, fun h => h.elim (fun e => absurd e.1 same) id⟩

theorem mem_foldl_addEdge (waiter : TransactionId) (holders : List TransactionId)
    (g : WaitForGraph) (a b : TransactionId) :
    b ∈ (holders.foldl (fun g holder => g.addEdge waiter holder) g).waitsFor a ↔
      (a = waiter ∧ b ∈ holders ∧ b ≠ waiter) ∨ b ∈ g.waitsFor a := by
  induction holders generalizing g with
  | nil => simp
  | cons holder holders ih =>
    rw [List.foldl_cons, ih, mem_addEdge, List.mem_cons]
    constructor
    · rintro (⟨h, hm, hne⟩ | ⟨h, he, hne⟩ | old)
      · exact Or.inl ⟨h, Or.inr hm, hne⟩
      · exact Or.inl ⟨h, Or.inl he, hne⟩
      · exact Or.inr old
    · rintro (⟨h, he | hm, hne⟩ | old)
      · exact Or.inr (Or.inl ⟨h, he, hne⟩)
      · exact Or.inl ⟨h, hm, hne⟩
      · exact Or.inr (Or.inr old)

theorem mem_refresh (g : WaitForGraph) (waiter : TransactionId) (holders : List TransactionId)
    (a b : TransactionId) :
    b ∈ (g.refresh waiter holders).waitsFor a ↔
      if a = waiter then b ∈ holders ∧ b ≠ waiter else b ∈ g.waitsFor a := by
  rw [refresh, mem_foldl_addEdge, mem_clear]
  by_cases same : a = waiter
  · simp [same]
  · simp [same]

/-! ## Cycles -/

theorem foldl_insert_mem (found : Std.TreeSet TransactionId) (listed : List TransactionId)
    (a : TransactionId) :
    a ∈ listed.foldl (fun found holder => found.insert holder) found ↔ a ∈ listed ∨ a ∈ found := by
  induction listed generalizing found with
  | nil => simp
  | cons b listed ih =>
    rw [List.foldl_cons, ih, Lookup.mem_insert, List.mem_cons]
    exact ⟨fun h => h.elim (fun h => Or.inl (Or.inr h)) fun h =>
        h.elim (fun h => Or.inl (Or.inl h)) Or.inr,
      fun h => h.elim (fun h => h.elim (fun h => Or.inr (Or.inl h)) Or.inl) fun h =>
        Or.inr (Or.inr h)⟩

theorem foldl_ends_mem (listed : List (TransactionId × Std.TreeSet TransactionId))
    (found : Std.TreeSet TransactionId) (a : TransactionId) :
    a ∈ listed.foldl (fun found e =>
        e.2.foldl (fun found holder => found.insert holder) (found.insert e.1)) found ↔
      (∃ e ∈ listed, a = e.1 ∨ a ∈ e.2) ∨ a ∈ found := by
  induction listed generalizing found with
  | nil => simp
  | cons e listed ih =>
    rw [List.foldl_cons, ih, Std.TreeSet.foldl_eq_foldl_toList, foldl_insert_mem,
      Lookup.mem_insert, Std.TreeSet.mem_toList]
    constructor
    · rintro (⟨d, hd, h⟩ | h | h | h)
      · exact Or.inl ⟨d, List.mem_cons_of_mem e hd, h⟩
      · exact Or.inl ⟨e, List.mem_cons_self, Or.inr h⟩
      · exact Or.inl ⟨e, List.mem_cons_self, Or.inl h⟩
      · exact Or.inr h
    · rintro (⟨d, hd, h⟩ | h)
      · rcases List.mem_cons.mp hd with rfl | hd
        · exact Or.inr (h.elim (fun h => Or.inr (Or.inl h)) Or.inl)
        · exact Or.inl ⟨d, hd, h⟩
      · exact Or.inr (Or.inr (Or.inr h))

theorem mem_nodes (g : WaitForGraph) (a : TransactionId) :
    a ∈ g.nodes ↔ ∃ e ∈ g.edges.toList, a = e.1 ∨ a ∈ e.2 := by
  rw [nodes, Std.TreeSet.mem_toList, Std.TreeMap.foldl_eq_foldl_toList, foldl_ends_mem]
  exact ⟨fun h => h.elim id fun h => absurd h Std.TreeSet.not_mem_emptyc, Or.inl⟩

theorem nodes_nodup (g : WaitForGraph) : g.nodes.Nodup := by
  simp only [nodes]
  exact Std.TreeSet.distinct_toList.imp fun differ same => differ (by simp [same])

theorem ends_mem_nodes (g : WaitForGraph) (a b : TransactionId) (edge : b ∈ g.waitsFor a) :
    a ∈ g.nodes ∧ b ∈ g.nodes := by
  rw [mem_waitsFor, targets, Std.TreeMap.getD_eq_getD_getElem?] at edge
  cases found : g.edges[a]? with
  | none =>
    rw [found] at edge
    exact absurd edge Std.TreeSet.not_mem_emptyc
  | some holders =>
    rw [found] at edge
    have listed := Std.TreeMap.mem_toList_iff_getElem?_eq_some.mpr found
    exact ⟨(g.mem_nodes a).mpr ⟨_, listed, Or.inl rfl⟩,
      (g.mem_nodes b).mpr ⟨_, listed, Or.inr edge⟩⟩

theorem hasCycle_iff (g : WaitForGraph) : g.hasCycle = true ↔ Peeling.Cyclic g.waitsFor :=
  Peeling.leavesRest_iff g.nodes_nodup g.ends_mem_nodes

/-- A wait that closes a cycle leaves the waiting transaction without edges. -/
theorem mem_block_of_cycle {g : WaitForGraph} {waiter : TransactionId}
    {holders : List TransactionId} (cycle : (g.block waiter holders).2 = true)
    (a b : TransactionId) :
    b ∈ (g.block waiter holders).1.waitsFor a ↔ a ≠ waiter ∧ b ∈ g.waitsFor a := by
  unfold block at cycle ⊢
  dsimp only at cycle ⊢
  split at cycle
  next found =>
    rw [if_pos found, mem_clear, mem_refresh]
    exact and_congr_right fun other => by rw [if_neg other]
  next => cases cycle

/-- A wait that closes no cycle is recorded against all holders but the waiting one. -/
theorem mem_block_of_refused {g : WaitForGraph} {waiter : TransactionId}
    {holders : List TransactionId} (refused : (g.block waiter holders).2 = false)
    (a b : TransactionId) :
    b ∈ (g.block waiter holders).1.waitsFor a ↔
      if a = waiter then b ∈ holders ∧ b ≠ waiter else b ∈ g.waitsFor a := by
  unfold block at refused ⊢
  dsimp only at refused ⊢
  split at refused
  next => cases refused
  next none_found => rw [if_neg none_found, mem_refresh]

theorem acyclic_block {g : WaitForGraph} (acyclic : g.Acyclic) (waiter : TransactionId)
    (holders : List TransactionId) : (g.block waiter holders).1.Acyclic := by
  by_cases cycle : (g.block waiter holders).2 = true
  · exact acyclic_of_subset acyclic fun a b edge => ((mem_block_of_cycle cycle a b).mp edge).2
  · unfold block at cycle ⊢
    dsimp only at cycle ⊢
    split at cycle
    next => exact absurd rfl cycle
    next none_found =>
      rw [if_neg none_found]
      exact fun cyclic => none_found ((hasCycle_iff _).mpr cyclic)

end TransactionalPages.WaitForGraph
