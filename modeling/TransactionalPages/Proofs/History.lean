import TransactionalPages.Proofs.SlottedPage

/-!
# Histories of tuples

A history is a list of the tuples that were inserted and deleted, oldest first.
It is replayed page by page: an insert takes the next slot of its page and a
delete empties a slot that has a tuple. The tuples that survive a history are
those that were inserted and not deleted, wherever they are.
-/

namespace TransactionalPages

/-- A change to the tuples of a table. -/
inductive Change where
  | inserted (record : RecordId) (tuple : Bytes)
  | deleted (record : RecordId)
  deriving DecidableEq

namespace Change

def record : Change → RecordId
  | inserted record _ => record
  | deleted record => record

/-- The changes to one page. -/
def onPage (page : PageId) (history : List Change) : List Change :=
  history.filter fun c => c.record.page = page

theorem onPage_append (page : PageId) (a b : List Change) :
    onPage page (a ++ b) = onPage page a ++ onPage page b := List.filter_append a b

theorem mem_onPage {page : PageId} {history : List Change} {c : Change} :
    c ∈ onPage page history ↔ c ∈ history ∧ c.record.page = page := by
  simp [onPage]

theorem onPage_single {page : PageId} {c : Change} (here : c.record.page = page) :
    onPage page [c] = [c] := by simp [onPage, here]

theorem onPage_other {page : PageId} {c : Change} (other : c.record.page ≠ page) :
    onPage page [c] = [] := by simp [onPage, other]

/-- The slots that a page comes to have when its history is replayed. -/
inductive Replays (page : PageId) : List Change → List (Option Bytes) → Prop where
  | nil : Replays page [] []
  | insert {history : List Change} {slots : List (Option Bytes)} (tuple : Bytes)
    (before : Replays page history slots) :
    Replays page (history ++ [.inserted ⟨page, slots.length⟩ tuple]) (slots ++ [some tuple])
  | delete {history : List Change} {slots : List (Option Bytes)} {slot : Nat} {tuple : Bytes}
    (before : Replays page history slots) (live : slots[slot]? = some (some tuple)) :
    Replays page (history ++ [.deleted ⟨page, slot⟩]) (slots.set slot none)

/-- The tuples that were ever inserted, each with its record. -/
def inserts (history : List Change) : HeapTable.Rows :=
  history.filterMap fun
    | .inserted record tuple => some (record, tuple)
    | .deleted _ => none

/-- The tuples that were inserted and not deleted. -/
def survivors (history : List Change) : HeapTable.Rows :=
  (inserts history).filter fun row => Change.deleted row.1 ∉ history

theorem mem_inserts {history : List Change} {record : RecordId} {tuple : Bytes} :
    (record, tuple) ∈ inserts history ↔ Change.inserted record tuple ∈ history := by
  simp only [inserts]
  rw [List.mem_filterMap]
  constructor
  · rintro ⟨c, listed, shown⟩
    cases c with
    | inserted r t =>
      cases shown
      exact listed
    | deleted r => cases shown
  · intro listed
    exact ⟨_, listed, rfl⟩

theorem mem_survivors {history : List Change} {record : RecordId} {tuple : Bytes} :
    (record, tuple) ∈ survivors history ↔
      Change.inserted record tuple ∈ history ∧ Change.deleted record ∉ history := by
  simp only [survivors]
  rw [List.mem_filter, mem_inserts]
  simp

/-! ## Replaying one page -/

variable {page : PageId} {history : List Change} {slots : List (Option Bytes)}

/-- A page that was replayed knows of no other records than those of its slots. -/
theorem Replays.within (replays : Replays page history slots) {c : Change} (listed : c ∈ history) :
    c.record.page = page ∧ c.record.slot < slots.length := by
  induction replays with
  | nil => cases listed
  | @insert history slots tuple before ih =>
    rw [List.length_append, List.length_singleton]
    rcases List.mem_append.mp listed with old | new
    · exact ⟨(ih old).1, Nat.lt_succ_of_lt (ih old).2⟩
    · rw [List.mem_singleton.mp new]
      exact ⟨rfl, Nat.lt_succ_self _⟩
  | @delete history slots slot tuple before live ih =>
    rw [List.length_set]
    rcases List.mem_append.mp listed with old | new
    · exact ih old
    · rw [List.mem_singleton.mp new]
      exact ⟨rfl, (List.getElem?_eq_some_iff.mp live).1⟩

/-- A slot has the tuple that was inserted there, unless it was deleted. -/
theorem Replays.slot_iff (replays : Replays page history slots) (i : Nat) (t : Bytes) :
    slots[i]? = some (some t) ↔
      Change.inserted ⟨page, i⟩ t ∈ history ∧ Change.deleted ⟨page, i⟩ ∉ history := by
  induction replays with
  | nil => simp
  | @insert history slots tuple before ih =>
    by_cases last : i = slots.length
    · subst last
      have fresh : ∀ c ∈ history, c.record ≠ ⟨page, slots.length⟩ := fun c listed same => by
        have bound := (before.within listed).2
        rw [same] at bound
        exact absurd bound (Nat.lt_irrefl _)
      have notInserted : Change.inserted ⟨page, slots.length⟩ t ∉ history := fun listed =>
        fresh _ listed rfl
      have notDeleted : Change.deleted ⟨page, slots.length⟩ ∉ history := fun listed =>
        fresh _ listed rfl
      simp [notInserted, notDeleted, eq_comm]
    · have same : (slots ++ [some tuple])[i]? = some (some t) ↔ slots[i]? = some (some t) := by
        rw [List.getElem?_append]
        split
        · rfl
        next beyond =>
          have outside : slots[i]? = none := List.getElem?_eq_none (Nat.le_of_not_lt beyond)
          have far : [some tuple][i - slots.length]? = none :=
            List.getElem?_eq_none (by rw [List.length_singleton]; omega)
          rw [outside, far]
      rw [same, ih]
      simp [last]
  | @delete history slots slot tuple before live ih =>
    by_cases here : slot = i
    · subst here
      simp [List.getElem?_set]
    · rw [List.getElem?_set, if_neg here, ih]
      simp [Ne.symm here]

theorem Replays.nodup_inserts (replays : Replays page history slots) :
    (inserts history).Nodup := by
  induction replays with
  | nil => exact List.nodup_nil
  | @insert history slots tuple before ih =>
    have grown : inserts (history ++ [.inserted ⟨page, slots.length⟩ tuple]) =
        inserts history ++ [(⟨page, slots.length⟩, tuple)] := by simp [inserts]
    rw [grown, List.nodup_append]
    refine ⟨ih, by simp, fun row old other new same => ?_⟩
    rw [List.mem_singleton] at new
    rw [same, new, mem_inserts] at old
    exact absurd (before.within old).2 (Nat.lt_irrefl _)
  | @delete history slots slot tuple before live ih =>
    have same : inserts (history ++ [.deleted ⟨page, slot⟩]) = inserts history := by simp [inserts]
    rwa [same]

/-! ## Replaying all pages -/

/-- Elements are distinct if those of each kind are. -/
theorem nodup_of_filter {α κ : Type} [DecidableEq κ] (kind : α → κ) (xs : List α)
    (distinct : ∀ k, (xs.filter fun a => kind a = k).Nodup) : xs.Nodup := by
  induction xs with
  | nil => exact List.nodup_nil
  | cons a rest ih =>
    refine List.nodup_cons.mpr ⟨fun again => ?_, ih fun k => ?_⟩
    · have here := distinct (kind a)
      rw [List.filter_cons_of_pos (by simp), List.nodup_cons] at here
      exact here.1 (List.mem_filter.mpr ⟨again, by simp⟩)
    · exact (distinct k).sublist ((List.sublist_cons_self a rest).filter _)

theorem inserts_onPage (page : PageId) (history : List Change) :
    (inserts history).filter (fun row => row.1.page = page) = inserts (onPage page history) := by
  induction history with
  | nil => rfl
  | cons c rest ih =>
    by_cases here : c.record.page = page
    · have kept : onPage page (c :: rest) = c :: onPage page rest := by simp [onPage, here]
      rw [kept]
      cases c with
      | inserted record tuple =>
        have belongs : record.page = page := here
        simp only [inserts, List.filterMap_cons] at ih ⊢
        rw [List.filter_cons_of_pos (by simpa using belongs), ih]
      | deleted record =>
        simp only [inserts, List.filterMap_cons] at ih ⊢
        exact ih
    · have dropped : onPage page (c :: rest) = onPage page rest := by simp [onPage, here]
      rw [dropped]
      cases c with
      | inserted record tuple =>
        have apart : record.page ≠ page := here
        simp only [inserts, List.filterMap_cons] at ih ⊢
        rw [List.filter_cons_of_neg (by simpa using apart), ih]
      | deleted record =>
        simp only [inserts, List.filterMap_cons] at ih ⊢
        exact ih

theorem nodup_survivors
    (replayed : ∀ page, ∃ slots, Replays page (onPage page history) slots) :
    (survivors history).Nodup := by
  have distinct : (inserts history).Nodup := by
    refine nodup_of_filter (fun row => row.1.page) _ fun page => ?_
    obtain ⟨slots, replays⟩ := replayed page
    rw [inserts_onPage]
    exact replays.nodup_inserts
  exact distinct.sublist List.filter_sublist

/-- A tuple survives where its slot has it in the end. -/
theorem mem_survivors_iff {record : RecordId} {tuple : Bytes}
    (replays : Replays record.page (onPage record.page history) slots) :
    (record, tuple) ∈ survivors history ↔ slots[record.slot]? = some (some tuple) := by
  rw [mem_survivors, replays.slot_iff, mem_onPage, mem_onPage]
  constructor
  · rintro ⟨inserted, notDeleted⟩
    exact ⟨⟨inserted, rfl⟩, fun deleted => notDeleted deleted.1⟩
  · rintro ⟨inserted, notDeleted⟩
    exact ⟨inserted.1, fun deleted => notDeleted ⟨deleted, rfl⟩⟩

end Change

end TransactionalPages
