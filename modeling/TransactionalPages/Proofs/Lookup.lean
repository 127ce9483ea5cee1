import Std.Data.TreeMap
import Std.Data.TreeSet

/-!
# Looking up what was changed

The maps of this library are keyed by numbers, so that two keys compare as equal
only when they are the same. A look-up after a change is then decided by the
equality of keys, and keys that are listed in order are determined by which they
are.
-/

namespace TransactionalPages.Lookup

variable {κ β : Type} [DecidableEq κ] {cmp : κ → κ → Ordering} [Std.TransCmp cmp]
  [Std.LawfulEqCmp cmp]

theorem getElem?_insert (m : Std.TreeMap κ β cmp) (k a : κ) (v : β) :
    (m.insert k v)[a]? = if a = k then some v else m[a]? := by
  by_cases h : a = k
  · simp [h]
  · simp [Std.TreeMap.getElem?_insert, Std.LawfulEqCmp.compare_eq_iff_eq, h, Ne.symm h]

theorem getElem?_erase (m : Std.TreeMap κ β cmp) (k a : κ) :
    (m.erase k)[a]? = if a = k then none else m[a]? := by
  by_cases h : a = k
  · simp [h]
  · simp [Std.TreeMap.getElem?_erase, Std.LawfulEqCmp.compare_eq_iff_eq, h, Ne.symm h]

theorem getElem?_modify (m : Std.TreeMap κ β cmp) (k a : κ) (f : β → β) :
    (m.modify k f)[a]? = if a = k then m[a]?.map f else m[a]? := by
  by_cases h : a = k
  · simp [h]
  · simp [Std.TreeMap.getElem?_modify, Std.LawfulEqCmp.compare_eq_iff_eq, h, Ne.symm h]

theorem getD_insert (m : Std.TreeMap κ β cmp) (k a : κ) (v fallback : β) :
    (m.insert k v).getD a fallback = if a = k then v else m.getD a fallback := by
  by_cases h : a = k
  · simp [h]
  · simp [Std.TreeMap.getD_insert, Std.LawfulEqCmp.compare_eq_iff_eq, h, Ne.symm h]

theorem getD_erase (m : Std.TreeMap κ β cmp) (k a : κ) (fallback : β) :
    (m.erase k).getD a fallback = if a = k then fallback else m.getD a fallback := by
  by_cases h : a = k
  · simp [h]
  · simp [Std.TreeMap.getD_erase, Std.LawfulEqCmp.compare_eq_iff_eq, h, Ne.symm h]

omit [DecidableEq κ] in
theorem mem_insert (s : Std.TreeSet κ cmp) (k a : κ) : a ∈ s.insert k ↔ a = k ∨ a ∈ s := by
  rw [Std.TreeSet.mem_insert, Std.LawfulEqCmp.compare_eq_iff_eq, eq_comm]

omit [DecidableEq κ] in
theorem mem_erase (s : Std.TreeSet κ cmp) (k a : κ) : a ∈ s.erase k ↔ a ≠ k ∧ a ∈ s := by
  rw [Std.TreeSet.mem_erase, ne_eq, Std.LawfulEqCmp.compare_eq_iff_eq, eq_comm, ne_eq]

omit [DecidableEq κ] [Std.TransCmp cmp] in
theorem nodup_of_ordered {l : List κ} (ordered : l.Pairwise fun a b => cmp a b = .lt) :
    l.Nodup :=
  ordered.imp fun {a b} less same => by
    have equal : cmp a b = .eq := Std.LawfulEqCmp.compare_eq_iff_eq.mpr same
    rw [less] at equal
    cases equal

omit [DecidableEq κ] in
/-- Lists in order are equal when they have the same members. -/
theorem eq_of_ordered {l m : List κ} (hl : l.Pairwise fun a b => cmp a b = .lt)
    (hm : m.Pairwise fun a b => cmp a b = .lt) (same : ∀ a, a ∈ l ↔ a ∈ m) : l = m := by
  have perm := (List.perm_ext_iff_of_nodup (nodup_of_ordered hl) (nodup_of_ordered hm)).mpr same
  refine perm.eq_of_pairwise (fun a b _ _ less more => ?_) hl hm
  have swapped : cmp a b = (cmp b a).swap := Std.OrientedCmp.eq_swap
  rw [less, more] at swapped
  cases swapped

end TransactionalPages.Lookup
