import TransactionalPages.Proofs.Bytes
import TransactionalPages.Table.Heap

/-!
# What a slotted page stands for

A page that was filled from zeros by inserts and deletes stands for a list of
slots, each of which has a tuple or was deleted. The tuples lie between the
header and the free pointer and the slot entries beyond it, so that a new tuple
and its entry touch nothing that is in use.

Without any assumption on its bytes a page keeps its size, and what is written to
it stays within it.
-/

namespace TransactionalPages

namespace SlottedPage

/-- Where the entry of a slot begins. -/
def entryAt (b : Bytes) (slot : Nat) : Nat := b.size - (slot + 1) * slotSize

theorem slotOffset?_eq_some {b : Bytes} {slot entry : Nat} (h : slotOffset? b slot = some entry) :
    entry = entryAt b slot ∧ headerSize ≤ entry ∧ entry + slotSize ≤ b.size := by
  simp only [slotOffset?] at h
  split at h
  next fits =>
    have here : b.size - (slot + 1) * slotSize = entry := Option.some.inj h
    simp only [slotSize, headerSize] at *
    refine ⟨here.symm, ?_, ?_⟩ <;> omega
  next => cases h

theorem slotOffset?_of_fits {b : Bytes} {slot : Nat}
    (fits : (slot + 1) * slotSize + headerSize ≤ b.size) :
    slotOffset? b slot = some (entryAt b slot) := if_pos fits

/-- Entries stand at the same places on all pages of one size. -/
theorem entryAt_of_size {b new : Bytes} (size : new.size = b.size) (slot : Nat) :
    entryAt new slot = entryAt b slot := by
  simp only [entryAt]
  rw [size]

theorem slotOffset?_of_size {b new : Bytes} (size : new.size = b.size) (slot : Nat) :
    slotOffset? new slot = slotOffset? b slot := by
  simp only [slotOffset?]
  rw [size]

/-- A slot is read off its entry. -/
theorem get_of_entry {b : Bytes} {slot : Nat} (whole : headerSize ≤ b.size)
    (counted : slot < slotCount b) (place : slotOffset? b slot = some (entryAt b slot)) :
    get b slot = tupleAt b slot (entryAt b slot) := by
  simp only [headerSize] at whole
  simp only [get]
  rw [if_neg (by omega), if_neg (Nat.not_le_of_lt counted), place]

theorem slotCount_lt (b : Bytes) : slotCount b < 65536 := Bytes.natAt_two_lt b 0

theorem freePointer_bounds {b : Bytes} {size : Nat} (room : hasRoomFor b size = true) :
    headerSize ≤ freePointer b ∧
      freePointer b + size + slotSize + slotCount b * slotSize ≤ b.size := by
  have fits : size + slotSize ≤ freeSpace b := of_decide_eq_true room
  simp only [freeSpace] at fits
  split at fits
  · simp only [slotSize] at fits
    omega
  · simp only [slotSize] at fits ⊢
    omega

theorem hasRoomFor?_eq_true {b : Bytes} {size : Nat} (room : hasRoomFor? b size = .ok true) :
    headerSize ≤ b.size ∧ hasRoomFor b size = true := by
  simp only [hasRoomFor?] at room
  split at room
  · cases room
  next whole =>
    split at room
    · cases room
    · exact ⟨Nat.le_of_not_lt whole, Except.ok.inj room⟩

/-! ## Keeping the size -/

/-- An insert is refused, or it runs out of slots, or it lays the tuple down and counts it. -/
theorem insert_cases (b tuple : Bytes) :
    (∃ e, (hasRoomFor? b tuple.size = .ok true → e.isFault = false) ∧
      insert b tuple = (b, .error e)) ∨
    (∃ entry, hasRoomFor? b tuple.size = .ok true ∧
      slotOffset? b (slotCount b) = some entry ∧ slotCount b = maxSlots ∧
      insert b tuple = (lay b tuple entry, .error (.fault .countExhausted))) ∨
    (∃ entry, hasRoomFor? b tuple.size = .ok true ∧
      slotOffset? b (slotCount b) = some entry ∧ slotCount b ≠ maxSlots ∧
      insert b tuple =
        (setSlotCount (lay b tuple entry) (slotCount b + 1), .ok (slotCount b))) := by
  simp only [insert]
  split
  next e unknown =>
    refine Or.inl ⟨e, fun room => ?_, rfl⟩
    rw [room] at unknown
    cases unknown
  next full =>
    refine Or.inl ⟨_, fun room => ?_, rfl⟩
    rw [room] at full
    cases full
  next room =>
    split
    next => exact Or.inl ⟨_, fun _ => rfl, rfl⟩
    next entry place =>
      split
      next many => exact Or.inr (Or.inl ⟨entry, room, place, many, rfl⟩)
      next few => exact Or.inr (Or.inr ⟨entry, room, place, few, rfl⟩)

theorem size_lay {b tuple : Bytes} {entry : Nat} (tupleFits : freePointer b + tuple.size ≤ b.size)
    (entryFits : entry + slotSize ≤ b.size) : (lay b tuple entry).size = b.size := by
  simp only [slotSize] at entryFits
  simp only [lay]
  simp only [Bytes.size_patch, Bytes.size_little]
  omega

/-- What an insert that succeeds has found and done. -/
theorem insert_eq_ok {b tuple new : Bytes} {slot : Nat} (h : insert b tuple = (new, .ok slot)) :
    hasRoomFor b tuple.size = true ∧ slot = slotCount b ∧ slotCount b ≠ maxSlots ∧
      slotOffset? b (slotCount b) = some (entryAt b (slotCount b)) ∧
      new = setSlotCount (lay b tuple (entryAt b (slotCount b))) (slotCount b + 1) := by
  rcases insert_cases b tuple with
    ⟨e, _, eq⟩ | ⟨_, _, _, _, eq⟩ | ⟨entry, room, place, few, eq⟩
  · rw [eq, Prod.mk.injEq] at h
    cases h.2
  · rw [eq, Prod.mk.injEq] at h
    cases h.2
  · rw [eq, Prod.mk.injEq] at h
    have here := (slotOffset?_eq_some place).1
    subst here
    exact ⟨(hasRoomFor?_eq_true room).2, (Except.ok.inj h.2).symm, few, place, h.1.symm⟩

theorem size_insert {b tuple new : Bytes} {slot : Nat} (h : insert b tuple = (new, .ok slot)) :
    new.size = b.size := by
  obtain ⟨room, _, _, place, grown⟩ := insert_eq_ok h
  have free := (freePointer_bounds room).2
  have entry := (slotOffset?_eq_some place).2.2
  have laid : (lay b tuple (entryAt b (slotCount b))).size = b.size := size_lay (by omega) entry
  rw [grown, setSlotCount, Bytes.size_patch, laid, Bytes.size_little]
  simp only [slotSize] at free
  omega

/-- The number of slots runs out only on pages that are too long for a pool. -/
theorem slotCount_ne_max {b : Bytes} {entry : Nat} (small : b.size ≤ 65535)
    (place : slotOffset? b (slotCount b) = some entry) : slotCount b ≠ maxSlots := by
  intro many
  have counted : slotCount b = 65535 := many
  obtain ⟨here, lower, _⟩ := slotOffset?_eq_some place
  simp only [entryAt, slotSize] at here
  simp only [headerSize] at lower
  omega

/-- Where there is room, there is a slot, if the page is not too long for a pool. -/
theorem insert_of_room {b tuple : Bytes} (small : b.size ≤ 65535)
    (room : hasRoomFor? b tuple.size = .ok true) :
    ∃ new, insert b tuple = (new, .ok (slotCount b)) := by
  obtain ⟨lower, upper⟩ := freePointer_bounds (hasRoomFor?_eq_true room).2
  have place : slotOffset? b (slotCount b) = some (entryAt b (slotCount b)) := by
    apply slotOffset?_of_fits
    simp only [slotSize, headerSize] at *
    omega
  refine ⟨setSlotCount (lay b tuple (entryAt b (slotCount b))) (slotCount b + 1), ?_⟩
  simp only [insert]
  rw [room, place]
  exact if_neg (slotCount_ne_max small place)

theorem get_error {b : Bytes} {slot : Nat} {e : StorageError} (refused : get b slot = .error e)
    (cause : IoCause) : e ≠ .io cause := by
  rintro rfl
  simp only [get] at refused
  split at refused
  · cases refused
  · split at refused
    · cases refused
    · split at refused
      · cases refused
      · simp only [tupleAt] at refused
        split at refused
        · cases refused
        · split at refused <;> cases refused

theorem delete_error {b : Bytes} {slot : Nat} {e : StorageError}
    (refused : delete b slot = .error e) (cause : IoCause) : e ≠ .io cause := by
  rintro rfl
  simp only [delete] at refused
  split at refused
  next read =>
    cases refused
    exact get_error read cause rfl
  · split at refused <;> cases refused

/-- Only a tuple that can be read can be deleted. -/
theorem get_of_delete {b new : Bytes} {slot : Nat} (deleted : delete b slot = .ok new) :
    ∃ tuple, get b slot = .ok tuple := by
  simp only [delete] at deleted
  split at deleted
  · cases deleted
  next tuple read => exact ⟨tuple, read⟩

theorem size_delete {b new : Bytes} {slot : Nat} (h : delete b slot = .ok new) :
    new.size = b.size := by
  simp only [delete] at h
  split at h
  · cases h
  · split at h
    · cases h
    next entry place =>
      have fits := (slotOffset?_eq_some place).2.2
      rw [← Except.ok.inj h]
      exact Bytes.size_patch_of_le (by simpa using fits)

/-! ## Contents -/

/-- What an entry says about its slot, whose tuple lies between the header and `top`. -/
def EntryFor (b : Bytes) (top entry : Nat) : Option Bytes → Prop
  | none => tupleOffset b entry = 0 ∧ tupleLength b entry = 0
  | some tuple =>
    headerSize ≤ tupleOffset b entry ∧ tupleLength b entry = tuple.size ∧
      tupleOffset b entry + tuple.size ≤ top ∧
      Bytes.slice b (tupleOffset b entry) tuple.size = tuple

theorem EntryFor.read_deleted {b : Bytes} {top entry : Nat} (entered : EntryFor b top entry none)
    (slot : Nat) : tupleAt b slot entry = .error (.tupleNotFound slot) := if_pos entered

theorem EntryFor.read_live {b tuple : Bytes} {top entry : Nat}
    (entered : EntryFor b top entry (some tuple)) (below : top ≤ entry) (slot : Nat) :
    tupleAt b slot entry = .ok tuple := by
  obtain ⟨lower, length, upper, bytes⟩ := entered
  simp only [headerSize] at lower
  have used : ¬(tupleOffset b entry = 0 ∧ tupleLength b entry = 0) := by omega
  have inside : ¬(tupleOffset b entry < headerSize ∨
      entry < tupleOffset b entry + tupleLength b entry) := by
    simp only [headerSize]
    omega
  simp only [tupleAt]
  rw [if_neg used, if_neg inside, length, bytes]

/-- An entry says the same as long as neither it nor the tuples below `top` are written. -/
theorem EntryFor.stays {b new : Bytes} {top higher entry : Nat} {s : Option Bytes}
    (entered : EntryFor b top entry s) (raised : top ≤ higher) (within : top ≤ b.size)
    (size : new.size = b.size)
    (entries : ∀ j, entry ≤ j → j < entry + slotSize → new.byte j = b.byte j)
    (tuples : ∀ j, headerSize ≤ j → j < top → new.byte j = b.byte j) :
    EntryFor new higher entry s := by
  simp only [slotSize] at entries
  have offset : tupleOffset new entry = tupleOffset b entry :=
    Bytes.natAt_congr fun j low high => entries j low (by omega)
  have length : tupleLength new entry = tupleLength b entry :=
    Bytes.natAt_congr fun j low high => entries j (by omega) (by omega)
  cases s with
  | none => exact ⟨offset.trans entered.1, length.trans entered.2⟩
  | some tuple =>
    obtain ⟨low, tupleSize, high, bytes⟩ := entered
    refine ⟨?_, length.trans tupleSize, ?_, ?_⟩
    · rw [offset]
      exact low
    · rw [offset]
      omega
    · rw [offset]
      refine Eq.trans (Bytes.slice_congr (by omega) (by omega) fun j start stop => ?_) bytes
      exact tuples j (by omega) (by omega)

/-- What an insert does to a page that is not too long for a pool. Outside the header, the tuple
and its entry nothing changes. -/
theorem insert_bytes {b tuple new : Bytes} {slot top entry : Nat}
    (inserted : insert b tuple = (new, .ok slot)) (small : b.size ≤ 65535)
    (topHere : freePointer b = top) (entryHere : entryAt b (slotCount b) = entry) :
    (∀ j, headerSize ≤ j → (j < top ∨ top + tuple.size ≤ j) → (j < entry ∨ entry + slotSize ≤ j) →
      new.byte j = b.byte j) ∧
    slotCount new = slotCount b + 1 ∧ freePointer new = top + tuple.size ∧
    EntryFor new (top + tuple.size) entry (some tuple) := by
  obtain ⟨room, _, few, place, grown⟩ := insert_eq_ok inserted
  have size : new.size = b.size := size_insert inserted
  obtain ⟨lower, upper⟩ := freePointer_bounds room
  have entryEnds := (slotOffset?_eq_some place).2.2
  have number := slotCount_lt b
  rw [topHere] at lower upper
  have entryPlace : entry + (slotCount b + 1) * slotSize = b.size := by
    simp only [entryAt, slotSize] at *
    omega
  rw [entryHere] at grown entryEnds
  simp only [lay, setSlotCount] at grown
  rw [topHere] at grown
  simp only [headerSize, slotSize, maxSlots] at *
  have kept : ∀ j, 4 ≤ j → (j < top ∨ top + tuple.size ≤ j) → (j < entry ∨ entry + 4 ≤ j) →
      new.byte j = b.byte j := by
    intro j header beside apart
    rw [grown, Bytes.byte_patch_outside (by simp only [Bytes.size_little]; omega),
      Bytes.byte_patch_outside (by simp only [Bytes.size_little]; omega),
      Bytes.byte_patch_outside (by simp only [Bytes.size_little]; omega),
      Bytes.byte_patch_outside (by simp only [Bytes.size_little]; omega),
      Bytes.byte_patch_outside beside]
  have newCount : slotCount new = slotCount b + 1 := by
    rw [slotCount, grown]
    exact Bytes.natAt_patch_little _ _ _ (by omega)
  have newFree : Bytes.natAt new 2 2 = top + tuple.size := by
    rw [grown, Bytes.natAt_patch_outside (by simp only [Bytes.size_little]; omega)]
    exact Bytes.natAt_patch_little _ _ _ (by omega)
  have newTop : freePointer new = top + tuple.size := by
    simp only [freePointer]
    rw [newFree, if_neg (by omega)]
  have newOffset : tupleOffset new entry = top := by
    rw [tupleOffset, grown, Bytes.natAt_patch_outside (by simp only [Bytes.size_little]; omega),
      Bytes.natAt_patch_outside (by simp only [Bytes.size_little]; omega),
      Bytes.natAt_patch_outside (by simp only [Bytes.size_little]; omega)]
    exact Bytes.natAt_patch_little _ _ _ (by omega)
  have newLength : tupleLength new entry = tuple.size := by
    rw [tupleLength, grown, Bytes.natAt_patch_outside (by simp only [Bytes.size_little]; omega),
      Bytes.natAt_patch_outside (by simp only [Bytes.size_little]; omega)]
    exact Bytes.natAt_patch_little _ _ _ (by omega)
  have newTuple : Bytes.slice new top tuple.size = tuple := by
    have laid : Bytes.slice (Bytes.patch b top tuple) top tuple.size = tuple :=
      Bytes.slice_patch_self (by omega)
    have whole : (Bytes.patch b top tuple).size = b.size := Bytes.size_patch_of_le (by omega)
    refine Eq.trans (Bytes.slice_congr (by omega) (by omega) fun j low high => ?_) laid
    rw [grown, Bytes.byte_patch_outside (by simp only [Bytes.size_little]; omega),
      Bytes.byte_patch_outside (by simp only [Bytes.size_little]; omega),
      Bytes.byte_patch_outside (by simp only [Bytes.size_little]; omega),
      Bytes.byte_patch_outside (by simp only [Bytes.size_little]; omega)]
  refine ⟨kept, newCount, newTop, ?_, newLength, ?_, ?_⟩
  · rw [newOffset]
    exact lower
  · omega
  · rw [newOffset, newTuple]

/-- What a delete does to a page: it clears the entry of the slot and changes nothing else. -/
theorem delete_bytes {b new : Bytes} {slot entry : Nat} (deleted : delete b slot = .ok new)
    (entryHere : entryAt b slot = entry) :
    (∀ j, j < entry ∨ entry + slotSize ≤ j → new.byte j = b.byte j) ∧
    slotCount new = slotCount b ∧ freePointer new = freePointer b ∧
    ∀ top, EntryFor new top entry none := by
  simp only [delete] at deleted
  split at deleted
  · cases deleted
  · split at deleted
    · cases deleted
    next found place =>
      obtain ⟨here, header, within⟩ := slotOffset?_eq_some place
      rw [entryHere] at here
      subst here
      have cleared : new = Bytes.patch b found (Bytes.zeros slotSize) :=
        (Except.ok.inj deleted).symm
      simp only [headerSize, slotSize] at *
      have kept : ∀ j, j < found ∨ found + 4 ≤ j → new.byte j = b.byte j := by
        intro j apart
        rw [cleared, Bytes.byte_patch_outside (by simpa using apart)]
      have zero : ∀ start, found ≤ start → start + 2 ≤ found + 4 →
          Bytes.natAt new start 2 = 0 := by
        intro start lower upper
        rw [← Bytes.natAt_zeros 0 start]
        refine Bytes.natAt_congr fun j low high => ?_
        rw [cleared, Bytes.byte_patch_inside (by omega) (by simp only [Bytes.size_zeros]; omega),
          Bytes.byte_zeros, Bytes.byte_zeros]
      have sameFree : Bytes.natAt new 2 2 = Bytes.natAt b 2 2 :=
        Bytes.natAt_congr fun j _ high => kept j (by omega)
      refine ⟨kept, Bytes.natAt_congr fun j _ high => kept j (by omega), ?_, fun top => ?_⟩
      · simp only [freePointer]
        rw [sameFree]
      · exact ⟨zero found (by omega) (by omega), zero (found + 2) (by omega) (by omega)⟩

/-- A page stands for its slots, of which the deleted ones have no tuple. -/
structure Represents (b : Bytes) (slots : List (Option Bytes)) : Prop where
  small : b.size ≤ 65535
  count : slotCount b = slots.length
  header : headerSize ≤ freePointer b
  fits : freePointer b + slots.length * slotSize ≤ b.size
  entry : ∀ i s, slots[i]? = some s → EntryFor b (freePointer b) (entryAt b i) s

theorem represents_zeros {n : Nat} (whole : headerSize ≤ n) (small : n ≤ 65535) :
    Represents (Bytes.zeros n) [] where
  small := by rwa [Bytes.size_zeros]
  count := Bytes.natAt_zeros n 0
  header := by
    have pointer : freePointer (Bytes.zeros n) = headerSize := if_pos (Bytes.natAt_zeros n 2)
    exact Nat.le_of_eq pointer.symm
  fits := by
    simp only [freePointer]
    rw [if_pos (Bytes.natAt_zeros n 2), Bytes.size_zeros]
    exact whole
  entry i s here := by simp at here

section

variable {b new tuple : Bytes} {slots : List (Option Bytes)} {slot i : Nat}

theorem Represents.entryAt_bounds (rep : Represents b slots) (within : i < slots.length) :
    freePointer b ≤ entryAt b i ∧ entryAt b i + (i + 1) * slotSize = b.size := by
  have fits := rep.fits
  have header := rep.header
  simp only [entryAt, slotSize, headerSize] at *
  omega

theorem Represents.slotOffset? (rep : Represents b slots) (within : i < slots.length) :
    slotOffset? b i = some (entryAt b i) := by
  have fits := rep.fits
  have header := rep.header
  refine slotOffset?_of_fits ?_
  simp only [slotSize, headerSize] at *
  omega

theorem Represents.get_eq (rep : Represents b slots) (within : i < slots.length) :
    get b i = tupleAt b i (entryAt b i) :=
  get_of_entry (Nat.le_trans rep.header (Nat.le_trans (Nat.le_add_right ..) rep.fits))
    (Nat.lt_of_lt_of_eq within rep.count.symm) (rep.slotOffset? within)

theorem Represents.get_live (rep : Represents b slots) (live : slots[i]? = some (some tuple)) :
    get b i = .ok tuple := by
  have within : i < slots.length := (List.getElem?_eq_some_iff.mp live).1
  rw [rep.get_eq within]
  exact (rep.entry i _ live).read_live (rep.entryAt_bounds within).1 i

theorem Represents.get_deleted (rep : Represents b slots) (deleted : slots[i]? = some none) :
    get b i = .error (.tupleNotFound i) := by
  have within : i < slots.length := (List.getElem?_eq_some_iff.mp deleted).1
  rw [rep.get_eq within]
  exact (rep.entry i _ deleted).read_deleted i

theorem Represents.get_beyond (rep : Represents b slots) (beyond : slots[i]? = none) :
    get b i = .error (.invalidSlot i slots.length) := by
  have fits := rep.fits
  have header := rep.header
  have whole : ¬b.size < 2 := by
    simp only [slotSize, headerSize] at *
    omega
  have past : slotCount b ≤ i := by
    rw [rep.count]
    exact List.getElem?_eq_none_iff.mp beyond
  simp only [get]
  rw [if_neg whole, if_pos past, rep.count]

/-- The tuples that can be read are those of the slots that were not deleted. -/
theorem Represents.get_iff (rep : Represents b slots) :
    get b i = .ok tuple ↔ slots[i]? = some (some tuple) := by
  constructor
  · intro read
    cases here : slots[i]? with
    | none =>
      rw [rep.get_beyond here] at read
      cases read
    | some s =>
      cases s with
      | none =>
        rw [rep.get_deleted here] at read
        cases read
      | some other =>
        rw [rep.get_live here] at read
        cases read
        rfl
  · exact rep.get_live

theorem mem_liveTuples : (i, tuple) ∈ liveTuples b ↔ get b i = .ok tuple := by
  simp only [liveTuples]
  rw [List.mem_filterMap]
  constructor
  · rintro ⟨slot, _, shown⟩
    cases read : get b slot with
    | error e => simp [read] at shown
    | ok found =>
      simp only [read, Option.some.injEq, Prod.mk.injEq] at shown
      rw [← shown.1, ← shown.2, read]
  · intro read
    refine ⟨i, ?_, by rw [read]⟩
    rw [List.mem_range]
    refine Nat.lt_of_not_le fun beyond => ?_
    simp only [get] at read
    rw [if_pos beyond] at read
    split at read <;> cases read

/-- The live tuples are listed in the order of their slots. -/
theorem pairwise_liveTuples (b : Bytes) : (liveTuples b).Pairwise fun s t => s.1 < t.1 := by
  refine List.Pairwise.filterMap _ (fun slot other before s shown t shownOther => ?_)
    List.pairwise_lt_range
  cases read : get b slot with
  | error e => simp [read] at shown
  | ok found =>
    cases readOther : get b other with
    | error e => simp [readOther] at shownOther
    | ok foundOther =>
      simp only [read, readOther, Option.some.injEq] at shown shownOther
      rw [← shown, ← shownOther]
      exact before

theorem nodup_liveTuples (b : Bytes) : (liveTuples b).Nodup := by
  refine (pairwise_liveTuples b).imp fun {s t} before same => ?_
  rw [same] at before
  exact Nat.lt_irrefl _ before

/-! ## Filling a page -/

/-- A new tuple lies above all others, and its entry below all others. -/
theorem Represents.insert (rep : Represents b slots)
    (inserted : SlottedPage.insert b tuple = (new, .ok slot)) :
    slot = slots.length ∧ Represents new (slots ++ [some tuple]) := by
  obtain ⟨room, counted, _, _, _⟩ := insert_eq_ok inserted
  have size : new.size = b.size := size_insert inserted
  obtain ⟨lower, upper⟩ := freePointer_bounds room
  obtain ⟨kept, newCount, newTop, newEntry⟩ := insert_bytes inserted rep.small rfl rfl
  have header := rep.header
  have small := rep.small
  rw [rep.count] at counted kept newCount newEntry upper
  refine ⟨counted, by omega, ?_, by omega, ?_, fun i s here => ?_⟩
  · rw [newCount, List.length_append, List.length_singleton]
  · rw [newTop, size, List.length_append, List.length_singleton]
    simp only [slotSize] at *
    omega
  rw [newTop, entryAt_of_size size]
  by_cases old : i < slots.length
  · rw [List.getElem?_append_left old] at here
    have bounds := rep.entryAt_bounds old
    have last : entryAt b slots.length + (slots.length + 1) * slotSize = b.size := by
      simp only [entryAt, slotSize] at *
      omega
    simp only [slotSize] at *
    refine (rep.entry i s here).stays (by omega) (by omega) size ?_ ?_
    · exact fun j low high => kept j (by omega) (by omega) (by simp only [slotSize] at high; omega)
    · exact fun j low high => kept j low (by omega) (by omega)
  · have last : i = slots.length := by
      have bound := (List.getElem?_eq_some_iff.mp here).1
      rw [List.length_append, List.length_singleton] at bound
      omega
    subst last
    rw [List.getElem?_append_right (Nat.le_refl _), Nat.sub_self] at here
    cases here
    exact newEntry

/-- Deleting a tuple clears its entry and nothing else. -/
theorem Represents.delete (rep : Represents b slots)
    (deleted : SlottedPage.delete b slot = .ok new) :
    (∃ tuple, slots[slot]? = some (some tuple)) ∧ Represents new (slots.set slot none) := by
  have size : new.size = b.size := size_delete deleted
  obtain ⟨kept, sameCount, sameTop, cleared⟩ := delete_bytes deleted rfl
  obtain ⟨tuple, read⟩ := get_of_delete deleted
  have live := rep.get_iff.mp read
  have within : slot < slots.length := (List.getElem?_eq_some_iff.mp live).1
  obtain ⟨below, place⟩ := rep.entryAt_bounds within
  have header := rep.header
  have small := rep.small
  have fits := rep.fits
  refine ⟨⟨tuple, live⟩, by omega, ?_, by omega, ?_, fun i s here => ?_⟩
  · rw [sameCount, List.length_set, rep.count]
  · rw [sameTop, List.length_set, size]
    exact fits
  rw [sameTop, entryAt_of_size size]
  rw [List.getElem?_set] at here
  by_cases same : slot = i
  · subst same
    rw [if_pos rfl, if_pos within] at here
    cases here
    exact cleared _
  · rw [if_neg same] at here
    have bound : i < slots.length := (List.getElem?_eq_some_iff.mp here).1
    obtain ⟨other, otherPlace⟩ := rep.entryAt_bounds bound
    simp only [slotSize] at *
    refine (rep.entry i s here).stays (Nat.le_refl _) (by omega) size ?_ ?_
    · exact fun j low high => kept j (by simp only [slotSize] at high; omega)
    · exact fun j low high => kept j (by omega)

end

end SlottedPage

namespace HeapTable

theorem place_eq_placed {b tuple new : Bytes} (h : place b tuple = .placed new) :
    ∃ slot, SlottedPage.insert b tuple = (new, .ok slot) := by
  simp only [place] at h
  split at h
  · cases h
  · cases h
  · split at h
    next placed slot inserted =>
      rw [← Placement.placed.inj h]
      exact ⟨slot, inserted⟩
    · cases h
    · cases h

theorem place_not_broken {b tuple new : Bytes} {fault : Fault} (small : b.size ≤ 65535) :
    place b tuple ≠ .broken new fault := by
  intro h
  simp only [place] at h
  split at h
  · cases h
  · cases h
  next room =>
    rcases SlottedPage.insert_cases b tuple with
      ⟨e, sane, eq⟩ | ⟨_, _, entry, many, _⟩ | ⟨_, _, _, _, eq⟩
    · rw [eq] at h
      cases e with
      | fault cause =>
        exact absurd (sane room) (by simp [StorageError.isFault, StorageError.fault?])
      | _ => cases h
    · exact SlottedPage.slotCount_ne_max small entry many
    · rw [eq] at h
      cases h

end HeapTable

end TransactionalPages
