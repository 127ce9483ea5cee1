import TransactionalPages.Cache
import TransactionalPages.Proofs.Lookup

/-!
# What a cache holds

Whatever moves in the queue, the pages that are filed stay filed, except for one
that is removed or evicted, and an evicted page is clean. The queue of a sound
cache lists each filed page once, so that a cache that finds nothing to evict
holds nothing but dirty pages.
-/

namespace TransactionalPages.Cache

variable {α : Type} {c : Cache α} {page : PageId} {a : α}

/-- The queue lists the filed pages, each once. -/
structure Aligned (c : Cache α) : Prop where
  distinct : c.order.Nodup
  listed : ∀ page, page ∈ c.order ↔ (c.peek? page).isSome

/-- The queue lists the filed pages, each once, and they are not too many. -/
structure Sound (c : Cache α) : Prop where
  distinct : c.order.Nodup
  listed : ∀ page, page ∈ c.order ↔ (c.peek? page).isSome
  within : c.order.length ≤ c.capacity

theorem Sound.aligned (sound : c.Sound) : c.Aligned := ⟨sound.distinct, sound.listed⟩

theorem Aligned.sound (aligned : c.Aligned) (within : c.order.length ≤ c.capacity) : c.Sound :=
  ⟨aligned.distinct, aligned.listed, within⟩

theorem aligned_empty (capacity : Nat) : (Cache.empty capacity : Cache α).Aligned where
  distinct := List.nodup_nil
  listed page := by simp [Cache.empty, peek?]

theorem sound_empty (capacity : Nat) : (Cache.empty capacity : Cache α).Sound :=
  (aligned_empty capacity).sound (Nat.zero_le capacity)

theorem contains_eq (c : Cache α) (page : PageId) : c.contains page = (c.peek? page).isSome :=
  Std.TreeMap.contains_eq_isSome_getElem?

theorem Aligned.size_eq (aligned : c.Aligned) : c.size = c.order.length := by
  have perm : c.pages.keys.Perm c.order := by
    refine (List.perm_ext_iff_of_nodup c.pages.nodup_keys aligned.distinct).mpr fun page => ?_
    rw [aligned.listed, Std.TreeMap.mem_keys, Std.TreeMap.mem_iff_isSome_getElem?]
    rfl
  rw [size, ← Std.TreeMap.length_keys]
  exact perm.length_eq

theorem Sound.size_eq (sound : c.Sound) : c.size = c.order.length := sound.aligned.size_eq

/-! ## What a change makes of the queue -/

variable {d : Cache α}

/-- The same pages are listed in another order. -/
theorem Aligned.reorder (aligned : c.Aligned) (perm : d.order.Perm c.order)
    (same : ∀ p, (d.peek? p).isSome = (c.peek? p).isSome) : d.Aligned :=
  ⟨perm.nodup_iff.mpr aligned.distinct, fun p => by
    rw [perm.mem_iff, same]
    exact aligned.listed p⟩

/-- One page more is listed. -/
theorem Aligned.enter (aligned : c.Aligned) (perm : d.order.Perm (page :: c.order))
    (absent : c.peek? page = none)
    (filed : ∀ p, d.peek? p = if p = page then some a else c.peek? p) : d.Aligned := by
  have new : page ∉ c.order := by
    rw [aligned.listed, absent]
    exact Bool.false_ne_true
  refine ⟨perm.nodup_iff.mpr (List.nodup_cons.mpr ⟨new, aligned.distinct⟩), fun p => ?_⟩
  rw [perm.mem_iff, List.mem_cons, aligned.listed, filed]
  by_cases same : p = page
  · simp [same]
  · simp [same]

/-- One page less is listed. -/
theorem Aligned.leave (aligned : c.Aligned) (perm : (page :: d.order).Perm c.order)
    (gone : ∀ p, d.peek? p = if p = page then none else c.peek? p) : d.Aligned := by
  have distinct := List.nodup_cons.mp (perm.nodup_iff.mpr aligned.distinct)
  refine ⟨distinct.2, fun p => ?_⟩
  have before := (perm.mem_iff (a := p)).trans (aligned.listed p)
  rw [List.mem_cons] at before
  rw [gone]
  by_cases same : p = page
  · subst same
    simpa using distinct.1
  · rw [if_neg same, ← before]
    exact ⟨Or.inr, fun here => here.resolve_left same⟩

/-! ## The queue -/

theorem toBack_perm (listed : page ∈ c.order) : (c.toBack page).order.Perm c.order :=
  (List.perm_append_singleton page _).trans (List.perm_cons_erase listed).symm

theorem Aligned.toBack (aligned : c.Aligned) (filed : (c.peek? page).isSome) :
    (c.toBack page).Aligned :=
  aligned.reorder (toBack_perm ((aligned.listed page).mpr filed)) fun _ => rfl

theorem Sound.toBack (sound : c.Sound) (filed : (c.peek? page).isSome) :
    (c.toBack page).Sound := by
  refine (sound.aligned.toBack filed).sound ?_
  rw [(toBack_perm ((sound.listed page).mpr filed)).length_eq]
  exact sound.within

theorem get_eq (c : Cache α) (page : PageId) :
    c.get page = ((if (c.peek? page).isSome then c.toBack page else c), c.peek? page) := by
  simp only [get]
  cases c.peek? page <;> rfl

theorem Aligned.get (aligned : c.Aligned) (page : PageId) : (c.get page).1.Aligned := by
  rw [get_eq]
  cases filed : c.peek? page with
  | none => exact aligned
  | some a => exact aligned.toBack (by rw [filed]; rfl)

theorem demote_peek? (c : Cache α) (page p : PageId) : (c.demote page).peek? p = c.peek? p := by
  simp only [demote]
  split <;> rfl

theorem Aligned.demote_perm (aligned : c.Aligned) (page : PageId) :
    (c.demote page).order.Perm c.order := by
  simp only [Cache.demote]
  split
  next filed =>
    rw [contains_eq, ← aligned.listed] at filed
    exact (List.perm_cons_erase filed).symm
  next => exact .refl _

theorem Aligned.demote (aligned : c.Aligned) (page : PageId) : (c.demote page).Aligned :=
  aligned.reorder (aligned.demote_perm page) fun p => by rw [demote_peek?]

theorem Sound.demote (sound : c.Sound) (page : PageId) : (c.demote page).Sound := by
  refine (sound.aligned.demote page).sound ?_
  have capacity : (c.demote page).capacity = c.capacity := by
    simp only [Cache.demote]
    split <;> rfl
  rw [(sound.aligned.demote_perm page).length_eq, capacity]
  exact sound.within

/-! ## Filing and removing -/

theorem insert_peek? (c : Cache α) (page : PageId) (a : α) (p : PageId) :
    (c.insert page a).peek? p = if p = page then some a else c.peek? p := by
  have filed : (c.pages.insert page a)[p]? = if p = page then some a else c.pages[p]? :=
    Lookup.getElem?_insert ..
  simp only [insert]
  split <;> exact filed

theorem insert_capacity (c : Cache α) (page : PageId) (a : α) :
    (c.insert page a).capacity = c.capacity := by
  simp only [insert]
  split <;> rfl

theorem insert_order (c : Cache α) (page : PageId) (a : α) :
    (c.insert page a).order =
      if (c.peek? page).isSome then (c.toBack page).order else c.order ++ [page] := by
  rw [← contains_eq]
  simp only [insert]
  split <;> rfl

theorem Aligned.insert (aligned : c.Aligned) (page : PageId) (a : α) :
    (c.insert page a).Aligned := by
  have order := c.insert_order page a
  cases filed : c.peek? page with
  | none =>
    rw [filed] at order
    refine aligned.enter ?_ filed (c.insert_peek? page a)
    rw [order]
    exact List.perm_append_singleton page c.order
  | some b =>
    rw [filed] at order
    refine aligned.reorder ?_ fun p => ?_
    · rw [order]
      exact toBack_perm ((aligned.listed page).mpr (by rw [filed]; rfl))
    · rw [insert_peek?]
      split
      next here => rw [here, filed]; rfl
      next => rfl

/-- Filing another page under a name that is there takes no room. -/
theorem Sound.refile (sound : c.Sound) (a : α) (filed : (c.peek? page).isSome) :
    (c.insert page a).Sound := by
  refine (sound.aligned.insert page a).sound ?_
  rw [insert_order, if_pos filed, insert_capacity]
  exact (sound.toBack filed).within

theorem Sound.insert (sound : c.Sound) (page : PageId) (a : α)
    (room : c.order.length < c.capacity) : (c.insert page a).Sound := by
  by_cases filed : (c.peek? page).isSome
  · exact sound.refile a filed
  · refine (sound.aligned.insert page a).sound ?_
    rw [insert_order, if_neg filed, insert_capacity, List.length_append]
    exact room

theorem remove_peek? (c : Cache α) (page p : PageId) :
    (c.remove page).1.peek? p = if p = page then none else c.peek? p := by
  simp only [remove]
  cases filed : c.peek? page with
  | some a => exact Lookup.getElem?_erase c.pages page p
  | none =>
    by_cases same : p = page
    · rw [if_pos same, same]
      exact filed
    · rw [if_neg same]

theorem peek?_of_remove {page p : PageId} {a : α} (held : (c.remove page).1.peek? p = some a) :
    c.peek? p = some a := by
  rw [remove_peek?] at held
  split at held
  · cases held
  · exact held

theorem remove_capacity (c : Cache α) (page : PageId) :
    (c.remove page).1.capacity = c.capacity := by
  simp only [remove]
  split <;> rfl

theorem Aligned.remove_order (aligned : c.Aligned) (page : PageId) :
    (c.remove page).1.order = c.order.erase page := by
  simp only [Cache.remove]
  cases filed : c.peek? page with
  | some a => rfl
  | none =>
    refine (List.erase_of_not_mem fun listed => ?_).symm
    rw [aligned.listed, filed] at listed
    cases listed

theorem Aligned.remove (aligned : c.Aligned) (page : PageId) : (c.remove page).1.Aligned := by
  cases filed : c.peek? page with
  | none =>
    have same : (c.remove page).1 = c := by simp [Cache.remove, filed]
    rw [same]
    exact aligned
  | some a =>
    refine aligned.leave ?_ (c.remove_peek? page)
    rw [aligned.remove_order]
    exact (List.perm_cons_erase ((aligned.listed page).mpr (by rw [filed]; rfl))).symm

theorem Sound.remove (sound : c.Sound) (page : PageId) : (c.remove page).1.Sound := by
  refine (sound.aligned.remove page).sound ?_
  rw [sound.aligned.remove_order, remove_capacity]
  exact Nat.le_trans (List.length_erase_le ..) sound.within

/-! ## Eviction -/

variable {dirty : α → Bool}

/-- The first `n` candidates are all dirty, or the first clean one among them goes. -/
theorem evictWithin_cases (dirty : α → Bool) (n : Nat) (c : Cache α) :
    (∃ order, order.Perm c.order ∧
      (n ≤ c.order.length → ∀ p ∈ c.order.take n, (c.peek? p).any dirty = true) ∧
      evictWithin dirty n c = ({ c with order := order }, none)) ∨
    (∃ page order, (page :: order).Perm c.order ∧ (c.peek? page).any dirty = false ∧
      evictWithin dirty n c =
        ({ c with pages := c.pages.erase page, order := order }, some page)) := by
  induction n generalizing c with
  | zero => exact Or.inl ⟨c.order, List.Perm.refl _, by simp, rfl⟩
  | succ n ih =>
    cases queue : c.order with
    | nil =>
      have unchanged : ({ c with order := [] } : Cache α) = c := by rw [← queue]
      exact Or.inl ⟨[], List.Perm.refl _, by simp, by rw [unchanged, evictWithin, queue]⟩
    | cons candidate rest =>
      by_cases skip : (c.peek? candidate).any dirty = true
      · -- the candidate goes to the back and the search goes on behind it
        have unfolded : evictWithin dirty (n + 1) c =
            evictWithin dirty n { c with order := rest ++ [candidate] } := by
          simp [evictWithin, queue, skip]
        have rotated : (rest ++ [candidate]).Perm (candidate :: rest) :=
          List.perm_append_singleton candidate rest
        rcases ih { c with order := rest ++ [candidate] } with
          ⟨order, perm, seen, eq⟩ | ⟨page, order, perm, clean, eq⟩
        · refine Or.inl ⟨order, perm.trans rotated, ?_, unfolded.trans eq⟩
          intro short p hp
          rw [List.take_succ_cons, List.mem_cons] at hp
          rcases hp with rfl | later
          · exact skip
          · have within : n ≤ rest.length := by simpa using short
            apply seen (by simp; omega) p
            rwa [List.take_append_of_le_length within]
        · exact Or.inr ⟨page, order, perm.trans rotated, clean, unfolded.trans eq⟩
      · refine Or.inr ⟨candidate, rest, List.Perm.refl _, by simpa using skip, ?_⟩
        simp [evictWithin, queue, skip]

/-- An eviction finds only dirty pages, or takes one clean page away. -/
theorem evict_cases (dirty : α → Bool) (c : Cache α) :
    (∃ order, order.Perm c.order ∧ (∀ p ∈ c.order, (c.peek? p).any dirty = true) ∧
      c.evict dirty = ({ c with order := order }, none)) ∨
    (∃ page order, (page :: order).Perm c.order ∧ (c.peek? page).any dirty = false ∧
      c.evict dirty = ({ c with pages := c.pages.erase page, order := order }, some page)) := by
  rcases evictWithin_cases dirty c.order.length c with ⟨order, perm, seen, eq⟩ | found
  · refine Or.inl ⟨order, perm, fun p hp => ?_, eq⟩
    exact seen (Nat.le_refl _) p (by rwa [List.take_length])
  · exact Or.inr found

theorem Aligned.evict (aligned : c.Aligned) (dirty : α → Bool) : (c.evict dirty).1.Aligned := by
  rcases c.evict_cases dirty with ⟨order, perm, _, eq⟩ | ⟨page, order, perm, _, eq⟩
  · rw [eq]
    exact aligned.reorder perm fun _ => rfl
  · rw [eq]
    exact aligned.leave perm fun p => Lookup.getElem?_erase c.pages page p

theorem Sound.evict (sound : c.Sound) (dirty : α → Bool) : (c.evict dirty).1.Sound := by
  refine (sound.aligned.evict dirty).sound ?_
  rcases c.evict_cases dirty with ⟨order, perm, _, eq⟩ | ⟨page, order, perm, _, eq⟩
  · rw [eq]
    exact Nat.le_trans (Nat.le_of_eq perm.length_eq) sound.within
  · rw [eq]
    have shorter := perm.length_eq
    rw [List.length_cons] at shorter
    have few : order.length ≤ c.order.length := by omega
    exact Nat.le_trans few sound.within

/-- Dirty candidates go to the back in the order in which they came. -/
theorem evictWithin_of_dirty {front back : List PageId} (queue : c.order = front ++ back)
    (all : ∀ page ∈ front, (c.peek? page).any dirty = true) (n : Nat) :
    evictWithin dirty (front.length + n) c =
      evictWithin dirty n { c with order := back ++ front } := by
  induction front generalizing c back with
  | nil =>
    have same : { c with order := back ++ [] } = c := by
      rw [List.append_nil, ← List.nil_append back, ← queue]
    rw [same, List.length_nil, Nat.zero_add]
  | cons candidate front ih =>
    have skip : (c.peek? candidate).any dirty = true := all candidate List.mem_cons_self
    have turned := ih (c := { c with order := front ++ back ++ [candidate] })
      (List.append_assoc front back [candidate])
      fun page listed => all page (List.mem_cons_of_mem candidate listed)
    have length : (candidate :: front).length + n = front.length + n + 1 := by
      rw [List.length_cons]
      omega
    rw [length, evictWithin, queue, List.cons_append]
    dsimp only
    rw [if_pos skip, turned]
    simp

/-- A queue of dirty pages has gone round once. -/
theorem evict_of_dirty (all : ∀ page ∈ c.order, (c.peek? page).any dirty = true) :
    c.evict dirty = (c, none) :=
  evictWithin_of_dirty (List.append_nil _).symm all 0

/-- Nothing is evicted exactly when every page of the queue is dirty, and then nothing changes. -/
theorem evict_eq_none_iff :
    (c.evict dirty).2 = none ↔ ∀ page ∈ c.order, (c.peek? page).any dirty = true := by
  constructor
  · intro kept
    rcases c.evict_cases dirty with ⟨_, _, all, _⟩ | ⟨_, _, _, _, eq⟩
    · exact all
    · rw [eq] at kept
      cases kept
  · intro all
    rw [evict_of_dirty all]

/-- Every cached page is dirty exactly when all that the queue lists are. -/
theorem Aligned.all_dirty_iff (aligned : c.Aligned) :
    (∀ page ∈ c.order, (c.peek? page).any dirty = true) ↔
      ∀ page a, c.peek? page = some a → dirty a = true := by
  constructor
  · intro all page a held
    have listed : page ∈ c.order := (aligned.listed page).mpr (by rw [held]; rfl)
    simpa [held] using all page listed
  · intro all page listed
    obtain ⟨a, held⟩ := Option.isSome_iff_exists.mp ((aligned.listed page).mp listed)
    simpa [held] using all page a held

end TransactionalPages.Cache
