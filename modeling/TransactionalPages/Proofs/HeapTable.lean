import TransactionalPages.Pool.Operation
import TransactionalPages.Proofs.Orderly

/-!
# Heap tables are orderly

The programs of a heap table, and with them all operations on a catalog of heap
tables, are orderly. A full page is given back only if it was taken on the way,
and a tuple is put onto a page or deleted from it under an exclusive lock.
-/

namespace TransactionalPages

/-- The changes to one page that a mutation of a table may make. -/
def Mutation.Changes (table : TableId) (mutation : Mutation) (page : PageId) (old new : Bytes) :
    Prop :=
  page.table = table ∧
    match mutation with
    | .insert tuple => ∃ slot, SlottedPage.insert old tuple = (new, .ok slot)
    | .delete record => record.page = page ∧ SlottedPage.delete old record.slot = .ok new

theorem Mutation.Changes.size {table : TableId} {mutation : Mutation} {page : PageId}
    {old new : Bytes} (change : mutation.Changes table page old new) : new.size = old.size := by
  cases mutation with
  | insert tuple =>
    obtain ⟨_, slot, inserted⟩ := change
    exact SlottedPage.size_insert inserted
  | delete record => exact SlottedPage.size_delete change.2.2

def Mutation.purpose (table : TableId) (store : StoreRef) (mutation : Mutation) :
    Purpose (List PageRef) where
  fetches page := page.table = table
  allocates s t := (∃ tuple, mutation = .insert tuple) ∧ s = store ∧ t = table
  changes := mutation.Changes table
  changed ref := [ref]
  reads _ := False

namespace HeapTable

variable {table : TableId} {store : StoreRef} {tuple : Bytes} {page : PageId}

theorem orderly_placeOn {ref : PageRef} {fresh : Bool} {seen : Option Bytes}
    {ifFull : Bytes → Program (List PageRef)} (belongs : page.table = table)
    (rest : ∀ data, Orderly ((Mutation.insert tuple).purpose table store)
      (.served page .readWrite ref fresh (some data)) (ifFull data)) :
    Orderly ((Mutation.insert tuple).purpose table store)
      (.served page .readWrite ref fresh seen) (placeOn ref tuple ifFull) := by
  refine .look fun p => ?_
  cases placed : place p.data tuple with
  | full => exact rest p.data
  | placed new =>
    have change : (Mutation.insert tuple).Changes table page p.data new :=
      ⟨belongs, place_eq_placed placed⟩
    exact .edit change change.size
  | refused e => exact .fail _ _
  | broken new fault =>
    have large : Config.maxPageSize < p.data.size := by
      have notSmall : ¬p.data.size ≤ 65535 := fun small => place_not_broken small placed
      exact Nat.lt_of_not_le notSmall
    exact .spoil large (.fail _ _)

theorem orderly_insertNew (belongs : page.table = table) :
    Orderly ((Mutation.insert tuple).purpose table store) (.apart none) (insertNew tuple page) :=
  .fetch belongs (fun e => .fail _ e) fun _ => orderly_placeOn belongs fun _ => .fail _ _

theorem orderly_insertFrom (left : Nat) (index : UInt32) :
    Orderly ((Mutation.insert tuple).purpose table store) (.apart none)
      (insertFrom table store tuple left index) := by
  induction left generalizing index with
  | zero =>
    exact .allocate ⟨⟨tuple, rfl⟩, rfl, rfl⟩ (fun e => .fail _ _)
      fun index => orderly_insertNew rfl
  | succ left ih =>
    refine .holds (.fetch rfl (fun e => .fail _ e) fun ref => ?_)
      (.fetch rfl (fun e => .fail _ e) fun ref => ?_)
    · exact orderly_placeOn rfl fun data => .forget _ (ih (index + 1))
    · -- a page that the transaction did not hold is given back when it is full
      have fresh : decide (some (PageId.mk table index) = some ⟨table, index⟩) = true := by simp
      rw [fresh]
      exact orderly_placeOn rfl fun data => .release (ih (index + 1))

theorem orderly_insert (table : TableId) (pageSize : Nat) (store : StoreRef) (tuple : Bytes) :
    Orderly ((Mutation.insert tuple).purpose table store) (.apart none)
      (insert table pageSize store tuple) := by
  simp only [insert]
  split
  · exact .fail _ _
  · refine .count fun counted => ?_
    cases counted with
    | error e => exact .fail _ _
    | ok count => exact orderly_insertFrom _ _

theorem orderly_delete (table : TableId) (store : StoreRef) (record : RecordId) :
    Orderly ((Mutation.delete record).purpose table store) (.apart none) (delete table record) := by
  simp only [delete, onOwnPage]
  split
  next belongs =>
    refine .fetch belongs (fun e => .fail _ e) fun ref => .look fun p => ?_
    cases deleted : SlottedPage.delete p.data record.slot with
    | error e => exact .fail _ _
    | ok new =>
      have change : (Mutation.delete record).Changes table record.page p.data new :=
        ⟨belongs, rfl, deleted⟩
      exact .edit change change.size
  next => exact .fail _ _

/-- Pages of one table, no allocation, no change and every answer. -/
def reading (table : TableId) (α : Type) [Inhabited α] : Purpose α where
  fetches page := page.table = table
  allocates _ _ := False
  changes _ _ _ := False
  changed _ := default
  reads _ := True

theorem orderly_get (table : TableId) (record : RecordId) :
    Orderly (reading table Bytes) (.apart none) (get table record) := by
  simp only [get, onOwnPage]
  split
  next belongs =>
    refine .fetch belongs (fun e => .fail _ e) fun ref => .look fun p => ?_
    cases SlottedPage.get p.data record.slot with
    | error e => exact .fail _ _
    | ok tuple => exact .answer _ trivial
  next => exact .fail _ _

theorem orderly_scanFrom (table : TableId) (left : Nat) (index : UInt32)
    (found : Rows) :
    Orderly (reading table Rows) (.apart none) (scanFrom table left index found) := by
  induction left generalizing index found with
  | zero => exact .answer _ trivial
  | succ left ih =>
    refine .fetch rfl (fun e => .fail _ e) fun ref => .look fun p => ?_
    cases SlottedPage.liveTuples? p.data with
    | error e => exact .fail _ _
    | ok tuples => exact .forget _ (ih _ _)

theorem orderly_scan (table : TableId) (store : StoreRef) :
    Orderly (reading table Rows) (.apart none) (scan table store) := by
  refine .count fun counted => ?_
  cases counted with
  | error e => exact .fail _ _
  | ok count => exact orderly_scanFrom table _ _ _

end HeapTable

/-! ## Operations -/

namespace Operation

/-- The table that an operation is about. -/
def table : Operation → TableId
  | fetch page _ => page.table
  | mutate table _ => table
  | get table _ => table
  | scan table _ => table

/-- What an operation may do in a pool with the given catalog. -/
def purpose (catalog : Catalog Table) (op : Operation) : Purpose Answer where
  fetches page := page.table = op.table
  allocates store table := ∃ tuple file,
    op = .mutate table (.insert tuple) ∧ catalog.file? table = some file ∧ store = file.store
  changes page old new := ∃ table mutation,
    op = .mutate table mutation ∧ mutation.Changes table page old new
  changed ref := .changed [ref]
  reads answer := (∀ refs, answer ≠ .changed refs) ∧ ∀ table mutation, op ≠ .mutate table mutation

theorem purpose_fits {pool : Pool} (heaps : pool.OverHeaps) (countable : pool.Countable)
    (op : Operation) : (op.purpose pool.catalog).Fits pool := by
  rintro store table ⟨tuple, file, _, known, rfl⟩
  exact ⟨(heaps table file known).2.2, countable file.store⟩

theorem orderly {pool : Pool} (heaps : pool.OverHeaps) (op : Operation) :
    Orderly (op.purpose pool.catalog) (.apart none) (pool.programOf op) := by
  cases op with
  | fetch page permission =>
    exact .fetch rfl (fun e => .fail _ _) fun ref =>
      .answer _ ⟨(fun refs same => by cases same), fun _ _ same => by cases same⟩
  | mutate table mutation =>
    simp only [Pool.programOf, Pool.findTable]
    cases known : pool.catalog.file? table with
    | none => exact .fail _ _
    | some file =>
      have heap := (heaps table file known).1
      have programmed : Orderly (mutation.purpose table file.store) (.apart none)
          (file.program mutation) := by
        rw [heap]
        cases mutation with
        | insert tuple => exact HeapTable.orderly_insert ..
        | delete record => exact HeapTable.orderly_delete ..
      refine programmed.map Answer.changed (fun _ same => same) ?_ ?_ (fun _ _ _ ref _ => rfl)
        fun refs => False.elim
      · rintro store other ⟨⟨tuple, rfl⟩, rfl, rfl⟩
        exact ⟨tuple, file, rfl, known, rfl⟩
      · exact fun page old new change => ⟨table, mutation, rfl, change⟩
  | get table record =>
    exact (HeapTable.orderly_get table record).map Answer.tuple (fun _ same => same)
      (fun _ _ => False.elim) (fun _ _ _ => False.elim) (fun _ _ _ _ => False.elim)
      fun data _ => ⟨(fun refs same => by cases same), fun _ _ same => by cases same⟩
  | scan table store =>
    exact (HeapTable.orderly_scan table store).map Answer.rows (fun _ same => same)
      (fun _ _ => False.elim) (fun _ _ _ => False.elim) (fun _ _ _ _ => False.elim)
      fun rows _ => ⟨(fun refs same => by cases same), fun _ _ same => by cases same⟩

end Operation

end TransactionalPages
