import TransactionalPages.Catalog
import TransactionalPages.Proofs.Lookup

/-!
# Names and tables

A catalog keeps the names of its tables in two maps. Each of them is changed in
several steps when a table is added, for the name may be taken by another table
and the table may have had another name. After the last step the maps say the
same again: a name leads to a table exactly if the table has that name.

What an addition leaves can be said of either map by itself. The table with the
same identifier and the one with the same name make room for the new one, the
name that the identifier had before is free, and everything else stays.
-/

namespace TransactionalPages

/-- What can be asked of a catalog that changes it. -/
inductive CatalogCall (α : Type) where
  | next
  | add (name : String) (table : TableId) (file : α)
  | remove (table : TableId)

namespace Catalog

variable {α : Type}

def serve (c : Catalog α) : CatalogCall α → Catalog α
  | .next => c.nextTableId.1
  | .add name table file => c.add name table file
  | .remove table => (c.remove table).1

/-- Serves calls one after another. -/
def serveAll (c : Catalog α) (calls : List (CatalogCall α)) : Catalog α := calls.foldl serve c

def Registered (c : Catalog α) (table : TableId) : Prop := (c.file? table).isSome

/-- Every table has one name, and every name leads to the table that has it. -/
structure Matched (c : Catalog α) : Prop where
  id_iff : ∀ name table, c.id? name = some table ↔
    c.Registered table ∧ c.name? table = some name
  one_name : ∀ table, c.Registered table →
    ∃ name, c.id? name = some table ∧ ∀ other, c.id? other = some table → other = name
  leads : ∀ name table, c.id? name = some table → c.Registered table

/-- What an addition makes of a catalog. -/
structure Adds (c after : Catalog α) (name : String) (table : TableId) (file : α) : Prop where
  file? : ∀ other, after.file? other =
    if other = table then some file
    else if c.name? other = some name then none else c.file? other
  name? : ∀ other, after.name? other =
    if other = table then some name
    else if c.name? other = some name then none else c.name? other
  id? : ∀ other, after.id? other =
    if other = name then some table
    else if c.id? other = some table then none else c.id? other

/-- What a removal answers, and what it makes of a catalog. -/
structure Removes (c : Catalog α) (table : TableId) : Prop where
  answer : (c.remove table).2 = c.file? table
  file? : ∀ other, (c.remove table).1.file? other =
    if other = table then none else c.file? other
  name? : ∀ other, (c.remove table).1.name? other =
    if other = table then none else c.name? other
  id? : ∀ other, (c.remove table).1.id? other =
    if c.id? other = some table then none else c.id? other

variable {c : Catalog α} {name other : String} {table id : TableId} {file found : α}

/-! ## The two maps after a change -/

theorem tables_takeName : (c.takeName name table).tables[id]? =
    if id ≠ table ∧ c.id? name = some id then none else c.tables[id]? := by
  simp only [takeName]
  cases taken : c.id? name with
  | none => simp
  | some previous =>
    by_cases same : previous = table
    · subst same
      have kept : ¬(id ≠ previous ∧ some previous = some id) :=
        fun h => h.1 (Option.some.inj h.2).symm
      simp only [if_true, if_neg kept]
    · simp only [if_neg same]
      rw [Lookup.getElem?_erase]
      by_cases here : id = previous
      · subst here
        rw [if_pos rfl, if_pos ⟨same, rfl⟩]
      · rw [if_neg here, if_neg fun h => here (Option.some.inj h.2).symm]

theorem names_takeName : (c.takeName name table).id? other =
    if other = name then some table else c.id? other := by
  have inserted : (c.names.insert name table)[other]? =
      if other = name then some table else c.id? other := Lookup.getElem?_insert ..
  simp only [takeName]
  split
  · split <;> exact inserted
  · exact inserted

theorem tables_fileUnder : (c.fileUnder table name file).tables[id]? =
    if id = table then some ⟨name, file⟩ else c.tables[id]? := by
  have inserted : (c.tables.insert table ⟨name, file⟩)[id]? =
      if id = table then some ⟨name, file⟩ else c.tables[id]? := Lookup.getElem?_insert ..
  simp only [fileUnder]
  split
  · split <;> exact inserted
  · exact inserted

theorem names_fileUnder : (c.fileUnder table name file).id? other =
    if other ≠ name ∧ c.name? table = some other then none else c.id? other := by
  simp only [fileUnder]
  cases had : c.name? table with
  | none => simp [id?]
  | some old =>
    by_cases same : old = name
    · subst same
      have kept : ¬(other ≠ old ∧ some old = some other) := fun h => h.1 (Option.some.inj h.2).symm
      simp only [if_true, if_neg kept]
      rfl
    · simp only [if_neg same]
      show (c.names.erase old)[other]? = _
      rw [Lookup.getElem?_erase]
      by_cases here : other = old
      · subst here
        rw [if_pos rfl, if_pos ⟨same, rfl⟩]
      · rw [if_neg here, if_neg fun h => here (Option.some.inj h.2).symm]
        rfl

theorem tables_add : (c.add name table file).tables[id]? =
    if id = table then some ⟨name, file⟩
    else if c.id? name = some id then none else c.tables[id]? := by
  rw [add, tables_fileUnder, tables_takeName]
  by_cases same : id = table
  · rw [if_pos same, if_pos same]
  · simp only [ne_eq, same, not_false_eq_true, true_and]

theorem names_add : (c.add name table file).id? other =
    if other = name then some table
    else if c.name? table = some other then none else c.id? other := by
  have unnamed : (c.takeName name table).name? table = c.name? table := by
    rw [name?, tables_takeName, if_neg fun h => h.1 rfl]
    rfl
  rw [add, names_fileUnder, names_takeName, unnamed]
  by_cases same : other = name
  · rw [if_neg fun h => h.1 same, if_pos same, if_pos same]
  · simp only [ne_eq, same, not_false_eq_true, true_and, if_false]

theorem tables_remove : (c.remove table).1.tables[id]? =
    if id = table then none else c.tables[id]? := by
  simp only [remove]
  cases filed : c.tables[table]? with
  | none =>
    by_cases same : id = table
    · subst same
      rw [if_pos rfl, filed]
    · rw [if_neg same]
  | some entry => exact Lookup.getElem?_erase ..

theorem names_remove : (c.remove table).1.id? other =
    if c.name? table = some other then none else c.id? other := by
  simp only [remove]
  cases filed : c.tables[table]? with
  | none => simp [name?, filed]
  | some entry =>
    have erased : (c.names.erase entry.name)[other]? =
        if other = entry.name then none else c.id? other := Lookup.getElem?_erase ..
    have named : c.name? table = some entry.name := by rw [name?, filed, Option.map_some]
    rw [named]
    simp only [Option.some.injEq, eq_comm (a := entry.name)]
    exact erased

/-- A catalog has the table that was added, and no table that it did not have otherwise. -/
theorem file?_add (known : (c.add name table file).file? id = some found) :
    (id = table ∧ found = file) ∨ c.file? id = some found := by
  rw [Catalog.file?, tables_add] at known
  split at known
  next same =>
    cases known
    exact Or.inl ⟨same, rfl⟩
  next =>
    split at known
    · cases known
    · exact Or.inr known

theorem file?_remove (known : (c.remove table).1.file? id = some found) :
    c.file? id = some found := by
  rw [Catalog.file?, tables_remove] at known
  split at known
  · cases known
  · exact known

/-! ## A name for every table -/

/-- The two maps say the same. -/
def Paired (c : Catalog α) : Prop :=
  ∀ name table, c.id? name = some table ↔ c.name? table = some name

theorem registered_of_named (named : c.name? table = some name) : c.Registered table := by
  obtain ⟨entry, filed, _⟩ := Option.map_eq_some_iff.mp named
  simp only [Registered, Catalog.file?, filed, Option.map_some, Option.isSome_some]

theorem named_of_registered (registered : c.Registered table) :
    ∃ name, c.name? table = some name := by
  obtain ⟨file, known⟩ := Option.isSome_iff_exists.mp registered
  obtain ⟨entry, filed, _⟩ := Option.map_eq_some_iff.mp known
  exact ⟨entry.name, by rw [Catalog.name?, filed, Option.map_some]⟩

theorem Paired.matched (paired : c.Paired) : c.Matched where
  id_iff name table := by
    rw [paired]
    exact ⟨fun named => ⟨registered_of_named named, named⟩, And.right⟩
  one_name table registered := by
    obtain ⟨name, named⟩ := named_of_registered registered
    refine ⟨name, (paired name table).mpr named, fun other found => ?_⟩
    have twice := (paired other table).mp found
    rw [named] at twice
    exact (Option.some.inj twice).symm
  leads name table found := registered_of_named ((paired name table).mp found)

theorem Paired.tables_add (paired : c.Paired) : (c.add name table file).tables[id]? =
    if id = table then some ⟨name, file⟩
    else if c.name? id = some name then none else c.tables[id]? := by
  have led : c.id? name = some id ↔ c.name? id = some name := paired name id
  simp only [Catalog.tables_add, led]

theorem Paired.adds (paired : c.Paired) (name : String) (table : TableId) (file : α) :
    c.Adds (c.add name table file) name table file where
  file? other := by
    rw [Catalog.file?, paired.tables_add]
    split
    · rfl
    · split <;> rfl
  name? other := by
    rw [Catalog.name?, paired.tables_add]
    split
    · rfl
    · split <;> rfl
  id? other := by
    have named : c.name? table = some other ↔ c.id? other = some table := (paired other table).symm
    simp only [names_add, named]

theorem Paired.removes (paired : c.Paired) (table : TableId) : c.Removes table where
  answer := by
    simp only [remove, Catalog.file?]
    cases c.tables[table]? <;> rfl
  file? other := by
    rw [Catalog.file?, tables_remove]
    split <;> rfl
  name? other := by
    rw [Catalog.name?, tables_remove]
    split <;> rfl
  id? other := by
    have named : c.name? table = some other ↔ c.id? other = some table := (paired other table).symm
    simp only [names_remove, named]

theorem paired_empty : (Catalog.empty : Catalog α).Paired := by
  intro name table
  simp [Catalog.empty, Catalog.id?, Catalog.name?]

theorem Paired.add (paired : c.Paired) (name : String) (table : TableId) (file : α) :
    (c.add name table file).Paired := by
  intro m t
  have added := paired.adds name table file
  rw [added.id?, added.name?]
  by_cases sameName : m = name
  · by_cases sameTable : t = table
    · simp only [sameName, sameTable, if_true]
    · -- the name leads to the new table, and whoever else had it is gone
      rw [if_pos sameName, if_neg sameTable, sameName]
      constructor
      · intro h
        exact absurd (Option.some.inj h).symm sameTable
      · split
        · intro h
          cases h
        next unnamed => exact fun h => absurd h unnamed
  · by_cases sameTable : t = table
    · rw [if_neg sameName, if_pos sameTable, sameTable]
      constructor
      · split
        · intro h
          cases h
        next unnamed => exact fun h => absurd h unnamed
      · intro h
        exact absurd (Option.some.inj h).symm sameName
    · rw [if_neg sameName, if_neg sameTable]
      have stays : (if c.id? m = some table then none else c.id? m) = some t ↔
          c.id? m = some t := by
        split
        next led => simp [led, Ne.symm sameTable]
        next => rfl
      have named : (if c.name? t = some name then none else c.name? t) = some m ↔
          c.name? t = some m := by
        split
        next had => simp [had, Ne.symm sameName]
        next => rfl
      rw [stays, named, paired]

theorem Paired.remove (paired : c.Paired) (table : TableId) : (c.remove table).1.Paired := by
  intro m t
  have removed := paired.removes table
  rw [removed.id?, removed.name?]
  by_cases same : t = table
  · rw [if_pos same, same]
    constructor
    · split
      · intro h
        cases h
      next other => exact fun h => absurd h other
    · intro h
      cases h
  · rw [if_neg same]
    split
    next led =>
      rw [← paired, led]
      simp [Ne.symm same]
    next => exact paired m t

theorem Paired.serve (paired : c.Paired) (call : CatalogCall α) : (c.serve call).Paired := by
  cases call with
  | next => exact paired
  | add name table file => exact paired.add name table file
  | remove table => exact paired.remove table

theorem Paired.serveAll (paired : c.Paired) (calls : List (CatalogCall α)) :
    (c.serveAll calls).Paired := by
  induction calls generalizing c with
  | nil => exact paired
  | cons call rest ih => exact ih (paired.serve call)

/-- Whatever was registered and removed before, names and tables match one to one. An addition
takes the place of the table with its name and of the table with its identifier, a removal frees
the name of its table, and neither touches anything else. -/
theorem names_match_tables (calls : List (CatalogCall α)) :
    (Catalog.empty.serveAll calls).Matched ∧
    (∀ name table file, (Catalog.empty.serveAll calls).Adds
      ((Catalog.empty.serveAll calls).add name table file) name table file) ∧
    ∀ table, (Catalog.empty.serveAll calls).Removes table := by
  have paired := paired_empty.serveAll calls
  exact ⟨paired.matched, paired.adds, paired.removes⟩

end Catalog

end TransactionalPages
