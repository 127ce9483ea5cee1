import Mathlib.Data.List.Induction
import TransactionalPages.Proofs.Catalog

/-!
# Identifiers that are handed out

A catalog counts the requests for identifiers and answers with the count. It does
not look at the tables that it has. No identifier is handed out twice before the
count comes round, which takes as many requests as there are numbers of 32 bits.
A table can be added under any identifier, though, and under one that is still to
come. It is in the way of that identifier exactly as long as it stays, so what
has to be said of a table that stays is said here from the calls alone.
-/

namespace TransactionalPages

namespace CatalogCall

variable {α : Type}

def asks : CatalogCall α → Bool
  | next => true
  | _ => false

/-- Neither removes the table of that name and identifier nor takes its place. -/
def Spares (name : String) (table : TableId) : CatalogCall α → Prop
  | next => True
  | add other id _ => other ≠ name ∧ id ≠ table
  | remove id => id ≠ table

end CatalogCall

namespace Catalog

variable {α : Type} {c : Catalog α} {calls : List (CatalogCall α)} {call : CatalogCall α}
  {name : String} {table id : TableId} {n : Nat}

/-- How often an identifier is asked for. -/
def requests (calls : List (CatalogCall α)) : Nat := calls.countP CatalogCall.asks

/-- The identifiers that are handed out in the course of calls. -/
def handedOut (c : Catalog α) : List (CatalogCall α) → List TableId
  | [] => []
  | call :: rest =>
    match call, c.nextTableId.2 with
    | .next, .ok id => id :: (c.serve call).handedOut rest
    | _, _ => (c.serve call).handedOut rest

/-- A table was added under a name and an identifier, and every later call spares it. -/
def Stands (calls : List (CatalogCall α)) (name : String) (table : TableId) : Prop :=
  ∃ before file after, calls = before ++ .add name table file :: after ∧
    ∀ call ∈ after, call.Spares name table

/-- Tables are added under identifiers that were handed out before. -/
def Assigned (calls : List (CatalogCall α)) : Prop :=
  ∀ before name table file after, calls = before ++ .add name table file :: after →
    table ∈ (Catalog.empty : Catalog α).handedOut before

/-! ## The count -/

theorem issued_add (c : Catalog α) (name : String) (table : TableId) (file : α) :
    (c.add name table file).issued = c.issued := by
  have taken : (c.takeName name table).issued = c.issued := by
    simp only [takeName]
    split
    · split <;> rfl
    · rfl
  rw [← taken]
  simp only [add, fileUnder]
  split
  · split <;> rfl
  · rfl

theorem issued_remove (c : Catalog α) (table : TableId) :
    (c.remove table).1.issued = c.issued := by
  simp only [remove]
  split <;> rfl

/-- Only a request moves the count. -/
theorem issued_serve (counter : c.issued = UInt32.ofNat n) (call : CatalogCall α) :
    (c.serve call).issued = UInt32.ofNat (n + requests [call]) := by
  cases call with
  | next =>
    show c.issued + 1 = UInt32.ofNat (n + 1)
    rw [counter, UInt32.ofNat_add]
    rfl
  | add name table file => exact (issued_add c name table file).trans counter
  | remove table => exact (issued_remove c table).trans counter

theorem requests_cons (call : CatalogCall α) (rest : List (CatalogCall α)) :
    requests (call :: rest) = requests [call] + requests rest := by
  simp only [requests, List.countP_cons, List.countP_nil]
  omega

theorem issued_serveAll (counter : c.issued = UInt32.ofNat n) (calls : List (CatalogCall α)) :
    (c.serveAll calls).issued = UInt32.ofNat (n + requests calls) := by
  induction calls generalizing c n with
  | nil => exact counter
  | cons call rest ih =>
    rw [requests_cons, ← Nat.add_assoc]
    exact ih (issued_serve counter call)

theorem nextTableId_eq_ok (counter : c.issued = UInt32.ofNat n) :
    c.nextTableId.2 = .ok id ↔ id.number ≠ 0 ∧ id.number = UInt32.ofNat (n + 1) := by
  have counted : c.issued + 1 = UInt32.ofNat (n + 1) := by
    rw [counter, UInt32.ofNat_add]
    rfl
  obtain ⟨number⟩ := id
  simp only [nextTableId, counted]
  by_cases round : UInt32.ofNat (n + 1) = 0
  · rw [if_pos round]
    constructor
    · intro answered
      cases answered
    · rintro ⟨positive, same⟩
      exact absurd (same.trans round) positive
  · rw [if_neg round]
    constructor
    · intro answered
      cases answered
      exact ⟨round, rfl⟩
    · rintro ⟨_, same⟩
      rw [same]

/-- The numbers that were counted in the meantime have been handed out, except for zero. -/
theorem mem_handedOut (counter : c.issued = UInt32.ofNat n) :
    id ∈ c.handedOut calls ↔
      id.number ≠ 0 ∧ ∃ k, n < k ∧ k ≤ n + requests calls ∧ id.number = UInt32.ofNat k := by
  induction calls generalizing c n with
  | nil =>
    constructor
    · intro listed
      cases listed
    · rintro ⟨_, k, above, within, _⟩
      have within : k ≤ n := within
      omega
  | cons call rest ih =>
    have later := ih (issued_serve counter call)
    rw [requests_cons, ← Nat.add_assoc]
    cases call with
    | next =>
      have one : requests [(.next : CatalogCall α)] = 1 := rfl
      rw [one] at later ⊢
      have head : id ∈ c.handedOut (.next :: rest) ↔
          c.nextTableId.2 = .ok id ∨ id ∈ (c.serve .next).handedOut rest := by
        simp only [handedOut]
        cases c.nextTableId.2 with
        | ok first => simp [eq_comm]
        | error e => simp
      rw [head, later, nextTableId_eq_ok counter]
      constructor
      · rintro (⟨positive, same⟩ | ⟨positive, k, above, within, same⟩)
        · exact ⟨positive, n + 1, by omega, by omega, same⟩
        · exact ⟨positive, k, by omega, within, same⟩
      · rintro ⟨positive, k, above, within, same⟩
        by_cases first : k = n + 1
        · subst first
          exact Or.inl ⟨positive, same⟩
        · exact Or.inr ⟨positive, k, by omega, within, same⟩
    | add name table file => exact later
    | remove table => exact later

theorem handedOut_mono {before after : List (CatalogCall α)}
    (listed : id ∈ (Catalog.empty : Catalog α).handedOut before) :
    id ∈ (Catalog.empty : Catalog α).handedOut (before ++ after) := by
  obtain ⟨positive, k, above, within, same⟩ := (mem_handedOut (n := 0) rfl).mp listed
  refine (mem_handedOut (n := 0) rfl).mpr ⟨positive, k, above, ?_, same⟩
  simp only [requests, List.countP_append] at within ⊢
  omega

/-- After as many requests as there are numbers, every identifier that is handed out has been
handed out before. -/
theorem handed_out_again (many : 4294967296 ≤ requests calls)
    (answered : ((Catalog.empty : Catalog α).serveAll calls).nextTableId.2 = .ok id) :
    id ∈ (Catalog.empty : Catalog α).handedOut calls := by
  have counter := issued_serveAll (c := (Catalog.empty : Catalog α)) (n := 0) rfl calls
  obtain ⟨positive, same⟩ := (nextTableId_eq_ok counter).mp answered
  refine (mem_handedOut (n := 0) rfl).mpr
    ⟨positive, requests calls + 1 - 4294967296, ?_, by omega, ?_⟩
  · -- the last number of a round is zero, which is not handed out
    refine Nat.pos_of_ne_zero fun zero => positive ?_
    have first : 0 + requests calls + 1 = 4294967296 := by omega
    rw [same, first]
    rfl
  · rw [same]
    apply UInt32.toNat_inj.mp
    rw [UInt32.toNat_ofNat', UInt32.toNat_ofNat']
    omega

/-! ## Tables that stay -/

theorem serveAll_concat (c : Catalog α) (calls : List (CatalogCall α)) (call : CatalogCall α) :
    c.serveAll (calls ++ [call]) = (c.serveAll calls).serve call := by
  simp only [serveAll, List.foldl_append, List.foldl_cons, List.foldl_nil]

theorem stands_concat : Stands (calls ++ [call]) name table ↔
    (∃ file, call = .add name table file) ∨ (Stands calls name table ∧ call.Spares name table) := by
  constructor
  · rintro ⟨before, file, after, split, spared⟩
    rcases List.eq_nil_or_concat after with rfl | ⟨rest, last, rfl⟩
    · obtain ⟨_, same⟩ := List.append_inj' split rfl
      exact Or.inl ⟨file, List.head_eq_of_cons_eq same⟩
    · rw [List.concat_eq_append, ← List.cons_append, ← List.append_assoc] at split
      obtain ⟨earlier, same⟩ := List.append_inj' split rfl
      have same := List.head_eq_of_cons_eq same
      subst same
      refine Or.inr ⟨⟨before, file, rest, earlier, fun met listed => ?_⟩, ?_⟩
      · exact spared met (by simp [listed])
      · exact spared call (by simp)
  · rintro (⟨file, rfl⟩ | ⟨⟨before, file, after, rfl, spared⟩, spares⟩)
    · exact ⟨calls, file, [], rfl, fun _ listed => absurd listed List.not_mem_nil⟩
    · refine ⟨before, file, after ++ [call], by simp, fun met listed => ?_⟩
      rcases List.mem_append.mp listed with earlier | last
      · exact spared met earlier
      · rw [List.mem_singleton.mp last]
        exact spares

/-- A catalog has the tables that stay, each under its name. -/
theorem name?_eq_some_iff_stands :
    ((Catalog.empty : Catalog α).serveAll calls).name? table = some name ↔
      Stands calls name table := by
  induction calls using List.reverseRecOn with
  | nil =>
    constructor
    · intro named
      simp [serveAll, Catalog.empty, name?] at named
    · rintro ⟨before, file, after, split, _⟩
      simp at split
  | append_singleton calls call ih =>
    have paired := (paired_empty (α := α)).serveAll calls
    rw [serveAll_concat, stands_concat, ← ih]
    generalize (Catalog.empty : Catalog α).serveAll calls = c at paired
    cases call with
    | next =>
      show c.name? table = some name ↔ _
      simp [CatalogCall.Spares]
    | add other id file =>
      show (c.add other id file).name? table = some name ↔ _
      rw [(paired.adds other id file).name?]
      simp only [CatalogCall.Spares, CatalogCall.add.injEq]
      constructor
      · intro named
        split at named
        next here =>
          cases named
          exact Or.inl ⟨file, rfl, here.symm, rfl⟩
        next apart =>
          split at named
          · cases named
          next differs =>
            refine Or.inr ⟨named, fun same => ?_, fun same => apart same.symm⟩
            exact differs (same ▸ named)
      · rintro (⟨_, rfl, rfl, _⟩ | ⟨named, differs, apart⟩)
        · rw [if_pos rfl]
        · have other : c.name? table ≠ some other := fun same =>
            differs (Option.some.inj (same.symm.trans named))
          rw [if_neg fun same => apart same.symm, if_neg other]
          exact named
    | remove id =>
      show (c.remove id).1.name? table = some name ↔ _
      rw [(paired.removes id).name?]
      simp only [CatalogCall.Spares]
      constructor
      · intro named
        split at named
        · cases named
        next apart => exact Or.inr ⟨named, fun same => apart same.symm⟩
      · rintro (⟨_, same⟩ | ⟨named, apart⟩)
        · cases same
        · rw [if_neg fun same => apart same.symm]
          exact named

theorem registered_iff_stands :
    ((Catalog.empty : Catalog α).serveAll calls).Registered table ↔
      ∃ name, Stands calls name table := by
  constructor
  · intro registered
    obtain ⟨name, named⟩ := named_of_registered registered
    exact ⟨name, name?_eq_some_iff_stands.mp named⟩
  · rintro ⟨name, stands⟩
    exact registered_of_named (name?_eq_some_iff_stands.mpr stands)

theorem Assigned.handedOut (assigned : Assigned calls) (stands : Stands calls name table) :
    table ∈ (Catalog.empty : Catalog α).handedOut calls := by
  obtain ⟨before, file, after, rfl, _⟩ := stands
  exact handedOut_mono (assigned before name table file after rfl)

/-! ## New identifiers -/

/-- As long as the count has not come round, a catalog has an identifier to hand out, and one that
it has not handed out before. A registered table has that identifier exactly if it was added under
it beforehand and has stayed, and none has it if tables are added under identifiers that were
handed out. -/
theorem handed_out_ids_are_new (calls : List (CatalogCall α)) (few : requests calls < 4294967295) :
    ∃ id, ((Catalog.empty : Catalog α).serveAll calls).nextTableId.2 = .ok id ∧
      id ∉ (Catalog.empty : Catalog α).handedOut calls ∧
      (((Catalog.empty : Catalog α).serveAll calls).Registered id ↔
        ∃ name, Stands calls name id) ∧
      (Assigned calls → ¬((Catalog.empty : Catalog α).serveAll calls).Registered id) := by
  have counter := issued_serveAll (c := (Catalog.empty : Catalog α)) (n := 0) rfl calls
  have number : (UInt32.ofNat (0 + requests calls + 1)).toNat = requests calls + 1 := by
    rw [UInt32.toNat_ofNat']
    omega
  have new : (⟨UInt32.ofNat (0 + requests calls + 1)⟩ : TableId) ∉
      (Catalog.empty : Catalog α).handedOut calls := by
    intro before
    obtain ⟨_, k, _, within, same⟩ := (mem_handedOut (n := 0) rfl).mp before
    have same : UInt32.ofNat (0 + requests calls + 1) = UInt32.ofNat k := same
    rw [same, UInt32.toNat_ofNat'] at number
    omega
  refine ⟨_, (nextTableId_eq_ok counter).mpr ⟨fun zero => ?_, rfl⟩, new, registered_iff_stands,
    fun assigned registered => ?_⟩
  · have zero : UInt32.ofNat (0 + requests calls + 1) = 0 := zero
    rw [zero, UInt32.toNat_zero] at number
    omega
  · obtain ⟨_, stands⟩ := registered_iff_stands.mp registered
    exact new (assigned.handedOut stands)

/-- The third identifier is new. Of the tables that have the first two, the second took the name of
the first. -/
theorem third_id_is_new :
    requests (α := Unit) [.next, .add "a" ⟨1⟩ (), .next, .add "a" ⟨2⟩ ()] < 4294967295 ∧
    ∃ id, ((Catalog.empty : Catalog Unit).serveAll
        [.next, .add "a" ⟨1⟩ (), .next, .add "a" ⟨2⟩ ()]).nextTableId.2 = .ok id ∧
      id ∉ (Catalog.empty : Catalog Unit).handedOut
        [.next, .add "a" ⟨1⟩ (), .next, .add "a" ⟨2⟩ ()] ∧
      (((Catalog.empty : Catalog Unit).serveAll
          [.next, .add "a" ⟨1⟩ (), .next, .add "a" ⟨2⟩ ()]).Registered id ↔
        ∃ name, Stands (α := Unit) [.next, .add "a" ⟨1⟩ (), .next, .add "a" ⟨2⟩ ()] name id) ∧
      (Assigned (α := Unit) [.next, .add "a" ⟨1⟩ (), .next, .add "a" ⟨2⟩ ()] →
        ¬((Catalog.empty : Catalog Unit).serveAll
          [.next, .add "a" ⟨1⟩ (), .next, .add "a" ⟨2⟩ ()]).Registered id) :=
  ⟨by decide, handed_out_ids_are_new _ (by decide)⟩

/-- The first identifier that is handed out is that of a table which is registered already. -/
theorem taken_id_is_handed_out :
    ((Catalog.empty : Catalog Unit).serveAll [.add "a" ⟨1⟩ ()]).nextTableId.2 = .ok ⟨1⟩ ∧
      ((Catalog.empty : Catalog Unit).serveAll [.add "a" ⟨1⟩ ()]).Registered ⟨1⟩ :=
  ⟨rfl, registered_iff_stands.mpr ⟨"a", [], (), [], rfl, by simp⟩⟩

end Catalog

end TransactionalPages
