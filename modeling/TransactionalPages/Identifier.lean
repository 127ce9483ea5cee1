import Std.Data.TreeMap

/-!
# Identifiers

Tables and pages are numbered by 32-bit words and transactions by 64-bit words.
Pages are ordered first by table and then by their position in it, which is the
order in which a transaction's pages are written back and rolled back.
-/

namespace TransactionalPages

structure TableId where
  number : UInt32
  deriving DecidableEq, Repr, Inhabited

structure TransactionId where
  number : UInt64
  deriving DecidableEq, Repr, Inhabited

/-- A page is named by its table and its position in that table. -/
structure PageId where
  table : TableId
  index : UInt32
  deriving DecidableEq, Repr, Inhabited

/-- A tuple is named by its page and its slot on that page. -/
structure RecordId where
  page : PageId
  slot : Nat
  deriving DecidableEq, Repr, Inhabited

namespace TableId

instance : Ord TableId := ⟨compareOn TableId.number⟩

instance : Std.TransOrd TableId :=
  inferInstanceAs (Std.TransCmp (compareOn TableId.number))

instance : Std.LawfulEqOrd TableId where
  eq_of_compare {a b} h := by
    obtain ⟨a⟩ := a
    obtain ⟨b⟩ := b
    have h' : compare a b = .eq := h
    rw [Std.LawfulEqOrd.eq_of_compare h']

instance : ToString TableId := ⟨fun t => "table" ++ toString t.number.toNat⟩

end TableId

namespace TransactionId

instance : Ord TransactionId := ⟨compareOn TransactionId.number⟩

instance : Std.TransOrd TransactionId :=
  inferInstanceAs (Std.TransCmp (compareOn TransactionId.number))

instance : Std.LawfulEqOrd TransactionId where
  eq_of_compare {a b} h := by
    obtain ⟨a⟩ := a
    obtain ⟨b⟩ := b
    have h' : compare a b = .eq := h
    rw [Std.LawfulEqOrd.eq_of_compare h']

instance : ToString TransactionId := ⟨fun t => "T" ++ toString t.number.toNat⟩

end TransactionId

namespace PageId

instance : Ord PageId := ⟨compareLex (compareOn PageId.table) (compareOn PageId.index)⟩

instance : Std.TransOrd PageId :=
  inferInstanceAs
    (Std.TransCmp (compareLex (compareOn PageId.table) (compareOn PageId.index)))

instance : Std.LawfulEqOrd PageId where
  eq_of_compare {a b} h := by
    obtain ⟨t, i⟩ := a
    obtain ⟨u, j⟩ := b
    have h' : (compare t u).then (compare i j) = .eq := h
    rw [Ordering.then_eq_eq] at h'
    rw [Std.LawfulEqOrd.eq_of_compare h'.1, Std.LawfulEqOrd.eq_of_compare h'.2]

instance : ToString PageId := ⟨fun p => toString p.table ++ ":" ++ toString p.index.toNat⟩

end PageId

end TransactionalPages
