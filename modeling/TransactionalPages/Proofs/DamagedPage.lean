import Mathlib.Data.List.Basic
import TransactionalPages.Proofs.SlotList

/-!
# Pages with any bytes

The operations of a slotted page are written once more over accesses that are
guarded: a number, a slice or an overwritten part that does not lie on the page
has no result, and neither has a field that is given a number of more than two
bytes. On a page of four to 65535 bytes every guarded operation has a result,
and it is that of the operation itself. Nothing is assumed about the bytes, so
the number of slots, the free pointer and the entries may contradict each other.

A tuple that can be read lies between the header and the entry of its slot, but
it may overlap other tuples and entries.
-/

namespace TransactionalPages

/-! ## Guarded accesses -/

namespace GuardedPage

open SlottedPage (headerSize slotSize slotOffset?)

/-- The number in the two bytes from `start` on. -/
def word? (b : Bytes) (start : Nat) : Option Nat :=
  if start + 2 ≤ b.size then some (Bytes.natAt b start 2) else none

def slice? (b : Bytes) (start n : Nat) : Option Bytes :=
  if start + n ≤ b.size then some (Bytes.slice b start n) else none

def write? (b : Bytes) (start : Nat) (new : Bytes) : Option Bytes :=
  if start + new.size ≤ b.size then some (Bytes.patch b start new) else none

/-- Stores a number in two bytes, if it fits there. -/
def setWord? (b : Bytes) (start n : Nat) : Option Bytes :=
  if n < 65536 then write? b start (Bytes.little 2 n) else none

/-! ## Guarded operations -/

def slotCount (b : Bytes) : Option Nat := word? b 0

def freePointer (b : Bytes) : Option Nat := do
  let pointer ← word? b 2
  return if pointer = 0 then headerSize else pointer

def freeSpace (b : Bytes) : Option Nat := do
  let pointer ← freePointer b
  if pointer < headerSize then return 0
  else
    let count ← slotCount b
    return b.size - count * slotSize - pointer

def hasRoomFor (b : Bytes) (size : Nat) : Option (Except StorageError Bool) := do
  let space ← freeSpace b
  if Limit.word < size + slotSize then return .error (.fault .sizeOutOfRange)
  else return .ok (size + slotSize ≤ space)

def tupleAt (b : Bytes) (slot entry : Nat) : Option (Except StorageError Bytes) := do
  let offset ← word? b entry
  let length ← word? b (entry + 2)
  if offset = 0 ∧ length = 0 then return .error (.tupleNotFound slot)
  else if offset < headerSize ∨ entry < offset + length then
    return .error (.corruptPage (.tupleOutside slot offset (offset + length)))
  else
    let tuple ← slice? b offset length
    return .ok tuple

def get (b : Bytes) (slot : Nat) : Option (Except StorageError Bytes) := do
  let count ← slotCount b
  if count ≤ slot then return .error (.invalidSlot slot count)
  else match slotOffset? b slot with
    | none => return .error (.corruptPage (.slotOutside slot b.size))
    | some entry => tupleAt b slot entry

def liveTuples (b : Bytes) : Option (List (Nat × Bytes)) := do
  let count ← slotCount b
  let answers ← (List.range count).mapM fun slot => (get b slot).map fun answer => (slot, answer)
  return answers.filterMap fun
    | (slot, .ok tuple) => some (slot, tuple)
    | (_, .error _) => none

def insert (b tuple : Bytes) : Option (Bytes × Except StorageError Nat) := do
  match ← hasRoomFor b tuple.size with
  | .error e => return (b, .error e)
  | .ok false =>
    let space ← freeSpace b
    return (b, .error (.pageFull (tuple.size + slotSize) space))
  | .ok true =>
    let slot ← slotCount b
    match slotOffset? b slot with
    | none => return (b, .error (.corruptPage (.slotOutside slot b.size)))
    | some entry =>
      let start ← freePointer b
      let laid ← write? b start tuple
      let laid ← setWord? laid entry start
      let laid ← setWord? laid (entry + 2) tuple.size
      let laid ← setWord? laid 2 (start + tuple.size)
      let counted ← setWord? laid 0 (slot + 1)
      return (counted, .ok slot)

/-- Answers with the bytes as they are when the slot cannot be deleted. -/
def delete (b : Bytes) (slot : Nat) : Option (Bytes × Except StorageError Unit) := do
  match ← get b slot with
  | .error e => return (b, .error e)
  | .ok _ =>
    match slotOffset? b slot with
    | none => return (b, .error (.corruptPage (.slotOutside slot b.size)))
    | some entry =>
      let cleared ← write? b entry (Bytes.zeros slotSize)
      return (cleared, .ok ())

/-! ## Accesses on the page -/

variable {b : Bytes} {start n : Nat}

theorem word?_eq (within : start + 2 ≤ b.size) : word? b start = some (Bytes.natAt b start 2) :=
  if_pos within

theorem slice?_eq (within : start + n ≤ b.size) : slice? b start n = some (Bytes.slice b start n) :=
  if_pos within

theorem write?_eq {new : Bytes} (within : start + new.size ≤ b.size) :
    write? b start new = some (Bytes.patch b start new) := if_pos within

theorem setWord?_eq (within : start + 2 ≤ b.size) (fits : n < 65536) :
    setWord? b start n = some (Bytes.patch b start (Bytes.little 2 n)) := by
  rw [setWord?, if_pos fits]
  exact write?_eq (by simpa using within)

/-! ## Every operation stays on the page -/

theorem slotCount_eq (whole : headerSize ≤ b.size) :
    slotCount b = some (SlottedPage.slotCount b) := by
  simp only [headerSize] at whole
  exact word?_eq (by omega)

theorem freePointer_eq (whole : headerSize ≤ b.size) :
    freePointer b = some (SlottedPage.freePointer b) := by
  simp only [headerSize] at whole
  rw [freePointer, word?_eq (by omega)]
  rfl

theorem freeSpace_eq (whole : headerSize ≤ b.size) :
    freeSpace b = some (SlottedPage.freeSpace b) := by
  rw [freeSpace, freePointer_eq whole, slotCount_eq whole]
  simp only [Option.bind_eq_bind, Option.bind_some, SlottedPage.freeSpace]
  split <;> rfl

theorem hasRoomFor_eq (whole : headerSize ≤ b.size) (size : Nat) :
    hasRoomFor b size = some (SlottedPage.hasRoomFor? b size) := by
  rw [hasRoomFor, freeSpace_eq whole]
  simp only [Option.bind_eq_bind, Option.bind_some, SlottedPage.hasRoomFor?]
  rw [if_neg (Nat.not_lt_of_le whole)]
  split <;> rfl

/-- A tuple that passes the check lies on the page, since its slot does. -/
theorem tupleAt_eq {slot entry : Nat} (place : entry + slotSize ≤ b.size) :
    tupleAt b slot entry = some (SlottedPage.tupleAt b slot entry) := by
  simp only [slotSize] at place
  have offset : word? b entry = some (SlottedPage.tupleOffset b entry) := word?_eq (by omega)
  have length : word? b (entry + 2) = some (SlottedPage.tupleLength b entry) :=
    word?_eq (by omega)
  rw [tupleAt, offset, length]
  simp only [Option.bind_eq_bind, Option.bind_some, SlottedPage.tupleAt]
  by_cases cleared : SlottedPage.tupleOffset b entry = 0 ∧ SlottedPage.tupleLength b entry = 0
  · rw [if_pos cleared, if_pos cleared]
    rfl
  · rw [if_neg cleared, if_neg cleared]
    split
    · rfl
    next inside =>
      rw [slice?_eq (by omega)]
      rfl

theorem get_eq (whole : headerSize ≤ b.size) (slot : Nat) :
    get b slot = some (SlottedPage.get b slot) := by
  have header : ¬b.size < 2 := by
    simp only [headerSize] at whole
    omega
  rw [get, slotCount_eq whole]
  simp only [Option.bind_eq_bind, Option.bind_some, SlottedPage.get]
  rw [if_neg header]
  split
  · rfl
  · cases place : slotOffset? b slot with
    | none => rfl
    | some entry => exact tupleAt_eq (SlottedPage.slotOffset?_eq_some place).2.2

theorem liveTuples_eq (whole : headerSize ≤ b.size) :
    liveTuples b = some (SlottedPage.liveTuples b) := by
  rw [liveTuples, slotCount_eq whole]
  have answers : (fun slot => (get b slot).map fun answer => (slot, answer)) =
      fun slot => pure (slot, SlottedPage.get b slot) := by
    funext slot
    rw [get_eq whole]
    rfl
  simp only [answers, List.mapM_pure]
  show some _ = some _
  congr 1
  rw [List.filterMap_map]
  refine List.filterMap_congr fun slot _ => ?_
  simp only [Function.comp]
  cases SlottedPage.get b slot <;> rfl

/-- Where there is room, every field fits in its two bytes. -/
theorem insert_eq (whole : headerSize ≤ b.size) (small : b.size ≤ 65535) (tuple : Bytes) :
    insert b tuple = some (SlottedPage.insert b tuple) := by
  rw [insert, hasRoomFor_eq whole, freeSpace_eq whole, slotCount_eq whole, freePointer_eq whole]
  simp only [Option.bind_eq_bind, Option.bind_some, SlottedPage.insert]
  cases asked : SlottedPage.hasRoomFor? b tuple.size with
  | error e => rfl
  | ok room =>
    cases room with
    | false => rfl
    | true =>
      cases place : slotOffset? b (SlottedPage.slotCount b) with
      | none => rfl
      | some entry =>
        obtain ⟨lower, upper⟩ :=
          SlottedPage.freePointer_bounds (SlottedPage.hasRoomFor?_eq_true asked).2
        have fits := (SlottedPage.slotOffset?_eq_some place).2.2
        simp only [slotSize, headerSize] at lower upper fits whole
        dsimp only
        rw [if_neg (SlottedPage.slotCount_ne_max small place)]
        have counted : SlottedPage.slotCount b + 1 < 65536 := by omega
        -- Each part lies on the page, which therefore keeps its size for the next one.
        rw [write?_eq (by omega), Option.bind_some,
          setWord?_eq (by rw [Bytes.size_patch]; omega) (by omega), Option.bind_some,
          setWord?_eq (by simp only [Bytes.size_patch, Bytes.size_little]; omega) (by omega),
          Option.bind_some,
          setWord?_eq (by simp only [Bytes.size_patch, Bytes.size_little]; omega) (by omega),
          Option.bind_some,
          setWord?_eq (by simp only [Bytes.size_patch, Bytes.size_little]; omega) counted,
          Option.bind_some]
        rfl

/-- A delete answers with the bytes that it leaves. -/
theorem delete_eq (whole : headerSize ≤ b.size) (slot : Nat) :
    delete b slot = some (match SlottedPage.delete b slot with
      | .ok new => (new, .ok ())
      | .error e => (b, .error e)) := by
  rw [delete, get_eq whole]
  simp only [Option.bind_eq_bind, Option.bind_some, SlottedPage.delete]
  cases SlottedPage.get b slot with
  | error e => rfl
  | ok tuple =>
    cases place : slotOffset? b slot with
    | none => rfl
    | some entry =>
      have fits := (SlottedPage.slotOffset?_eq_some place).2.2
      dsimp only
      rw [write?_eq (by simpa using fits)]
      rfl

end GuardedPage

/-! ## What the operations do -/

namespace SlottedPage

variable {b new tuple : Bytes} {slot : Nat}

theorem get_eq_ok (read : get b slot = .ok tuple) :
    slot < slotCount b ∧ slotOffset? b slot = some (entryAt b slot) ∧
      tupleAt b slot (entryAt b slot) = .ok tuple := by
  simp only [get] at read
  split at read
  · cases read
  · split at read
    · cases read
    next counted =>
      split at read
      · cases read
      next entry place =>
        have here := (slotOffset?_eq_some place).1
        subst here
        exact ⟨Nat.lt_of_not_le counted, place, read⟩

theorem tupleAt_eq_ok {entry : Nat} (read : tupleAt b slot entry = .ok tuple) :
    headerSize ≤ tupleOffset b entry ∧ tupleOffset b entry + tupleLength b entry ≤ entry ∧
      tuple = Bytes.slice b (tupleOffset b entry) (tupleLength b entry) := by
  simp only [tupleAt] at read
  split at read
  · cases read
  · split at read
    · cases read
    next inside => exact ⟨by omega, by omega, (Except.ok.inj read).symm⟩

/-- What can be read lies between the header and the entry of its slot. -/
theorem get_lies (read : get b slot = .ok tuple) :
    ∃ start, headerSize ≤ start ∧ start + tuple.size ≤ entryAt b slot ∧
      entryAt b slot + slotSize ≤ b.size ∧ tuple = Bytes.slice b start tuple.size := by
  obtain ⟨-, place, entered⟩ := get_eq_ok read
  obtain ⟨-, -, within⟩ := slotOffset?_eq_some place
  obtain ⟨lower, upper, bytes⟩ := tupleAt_eq_ok entered
  have size : tuple.size = tupleLength b (entryAt b slot) := by
    rw [bytes, Bytes.size_slice]
    omega
  refine ⟨tupleOffset b (entryAt b slot), lower, by omega, within, ?_⟩
  rw [size]
  exact bytes

/-- There is room exactly where an insert succeeds. -/
theorem insert_iff_room (small : b.size ≤ 65535) :
    hasRoomFor? b tuple.size = .ok true ↔ ∃ new slot, insert b tuple = (new, .ok slot) := by
  constructor
  · intro room
    obtain ⟨new, inserted⟩ := insert_of_room small room
    exact ⟨new, slotCount b, inserted⟩
  · rintro ⟨new, slot, inserted⟩
    rcases insert_cases b tuple with
      ⟨_, _, eq⟩ | ⟨_, room, _, _, _⟩ | ⟨_, room, _, _, _⟩
    · cases inserted.symm.trans eq
    · exact room
    · exact room

/-- A tuple that was inserted is read back, whatever else is on the page. -/
theorem get_of_insert (whole : headerSize ≤ b.size) (small : b.size ≤ 65535)
    (inserted : insert b tuple = (new, .ok slot)) : get new slot = .ok tuple := by
  obtain ⟨room, rfl, -, place, -⟩ := insert_eq_ok inserted
  have size : new.size = b.size := size_insert inserted
  obtain ⟨-, counted, -, entered⟩ := insert_bytes inserted small rfl rfl
  have newPlace : slotOffset? new (slotCount b) = some (entryAt new (slotCount b)) := by
    rw [slotOffset?_of_size size, entryAt_of_size size]
    exact place
  have below : freePointer b + tuple.size ≤ entryAt b (slotCount b) := by
    have free := (freePointer_bounds room).2
    simp only [entryAt, slotSize] at *
    omega
  rw [get_of_entry (by rw [size]; exact whole) (by omega) newPlace, entryAt_of_size size]
  exact entered.read_live below _

theorem delete_iff_get : (∃ new, delete b slot = .ok new) ↔ ∃ tuple, get b slot = .ok tuple := by
  constructor
  · rintro ⟨new, deleted⟩
    exact get_of_delete deleted
  · rintro ⟨tuple, read⟩
    refine ⟨Bytes.patch b (entryAt b slot) (Bytes.zeros slotSize), ?_⟩
    simp only [delete]
    rw [read, (get_eq_ok read).2.1]

/-- Nothing is read back from a slot that was deleted. -/
theorem get_of_deleted (whole : headerSize ≤ b.size) (deleted : delete b slot = .ok new) :
    get new slot = .error (.tupleNotFound slot) := by
  obtain ⟨tuple, read⟩ := get_of_delete deleted
  obtain ⟨counted, place, -⟩ := get_eq_ok read
  have size : new.size = b.size := size_delete deleted
  obtain ⟨-, sameCount, -, cleared⟩ := delete_bytes deleted rfl
  have newPlace : slotOffset? new slot = some (entryAt new slot) := by
    rw [slotOffset?_of_size size, entryAt_of_size size]
    exact place
  rw [get_of_entry (by rw [size]; exact whole) (by omega) newPlace, entryAt_of_size size]
  exact (cleared 0).read_deleted slot

theorem insert_refused {e : StorageError} (small : b.size ≤ 65535)
    (refused : insert b tuple = (new, .error e)) : new = b := by
  rcases insert_cases b tuple with
    ⟨_, _, eq⟩ | ⟨_, _, place, many, _⟩ | ⟨_, _, _, _, eq⟩
  · exact congrArg Prod.fst (refused.symm.trans eq)
  · exact absurd many (slotCount_ne_max small place)
  · cases congrArg Prod.snd (refused.symm.trans eq)

/-! ## Refusals that are no faults -/

theorem get_sane {e : StorageError} (whole : headerSize ≤ b.size)
    (refused : get b slot = .error e) : e.isFault = false := by
  simp only [headerSize] at whole
  simp only [get] at refused
  rw [if_neg (by omega)] at refused
  split at refused
  · cases refused
    rfl
  · split at refused
    · cases refused
      rfl
    · simp only [tupleAt] at refused
      split at refused
      · cases refused
        rfl
      · split at refused
        · cases refused
          rfl
        · cases refused

theorem delete_sane {e : StorageError} (whole : headerSize ≤ b.size)
    (refused : delete b slot = .error e) : e.isFault = false := by
  simp only [delete] at refused
  split at refused
  next unread =>
    cases refused
    exact get_sane whole unread
  · split at refused
    · cases refused
      rfl
    · cases refused

theorem insert_sane {e : StorageError} (whole : headerSize ≤ b.size) (small : b.size ≤ 65535)
    (sized : tuple.size + slotSize ≤ Limit.word) (refused : insert b tuple = (new, .error e)) :
    e.isFault = false := by
  have asked : hasRoomFor? b tuple.size = .ok (hasRoomFor b tuple.size) := by
    simp only [hasRoomFor?]
    rw [if_neg (Nat.not_lt_of_le whole), if_neg (Nat.not_lt_of_le sized)]
  cases room : hasRoomFor b tuple.size with
  | false =>
    simp only [insert] at refused
    rw [asked, room] at refused
    cases refused
    rfl
  | true =>
    rw [room] at asked
    obtain ⟨_, inserted⟩ := insert_of_room small asked
    cases congrArg Prod.snd (refused.symm.trans inserted)

/-- A page of any bytes goes through all operations: the guarded ones do what these do, and what
they return and leave behind is where it belongs. -/
structure Robust (b : Bytes) : Prop where
  counts : GuardedPage.slotCount b = some (slotCount b) ∧ slotCount? b = .ok (slotCount b)
  measures : GuardedPage.freeSpace b = some (freeSpace b) ∧ freeSpace? b = .ok (freeSpace b)
  asks : ∀ size, GuardedPage.hasRoomFor b size = some (hasRoomFor? b size)
  reads : ∀ slot, GuardedPage.get b slot = some (get b slot)
  lists : GuardedPage.liveTuples b = some (liveTuples b) ∧ liveTuples? b = .ok (liveTuples b)
  lies : ∀ slot tuple, get b slot = .ok tuple → ∃ start, headerSize ≤ start ∧
    start + tuple.size ≤ entryAt b slot ∧ entryAt b slot + slotSize ≤ b.size ∧
    tuple = Bytes.slice b start tuple.size
  inserts : ∀ tuple, GuardedPage.insert b tuple = some (insert b tuple) ∧
    (hasRoomFor? b tuple.size = .ok true ↔ ∃ new slot, insert b tuple = (new, .ok slot))
  inserted : ∀ tuple new slot, insert b tuple = (new, .ok slot) →
    get new slot = .ok tuple ∧ new.size = b.size ∧
    ∀ i, headerSize ≤ i → (i < freePointer b ∨ freePointer b + tuple.size ≤ i) →
      (i < entryAt b slot ∨ entryAt b slot + slotSize ≤ i) → new.byte i = b.byte i
  refused : ∀ tuple new e, insert b tuple = (new, .error e) → new = b
  sane : (∀ slot e, get b slot = .error e → e.isFault = false) ∧
    (∀ slot e, delete b slot = .error e → e.isFault = false) ∧
    ∀ tuple new e, insert b tuple = (new, .error e) → tuple.size + slotSize ≤ Limit.word →
      e.isFault = false
  deletes : ∀ slot, GuardedPage.delete b slot = some (match delete b slot with
      | .ok new => (new, .ok ())
      | .error e => (b, .error e)) ∧
    ((∃ new, delete b slot = .ok new) ↔ ∃ tuple, get b slot = .ok tuple)
  deleted : ∀ slot new, delete b slot = .ok new →
    get new slot = .error (.tupleNotFound slot) ∧ new.size = b.size ∧
    ∀ i, (i < entryAt b slot ∨ entryAt b slot + slotSize ≤ i) → new.byte i = b.byte i

/-- The operations are safe on every page that holds a header and is no longer than 65535
bytes. -/
theorem robust_of_size (whole : headerSize ≤ b.size) (small : b.size ≤ 65535) : Robust b where
  counts := by
    have header : ¬b.size < 2 := by
      simp only [headerSize] at whole
      omega
    exact ⟨GuardedPage.slotCount_eq whole, if_neg header⟩
  measures := ⟨GuardedPage.freeSpace_eq whole, if_neg (Nat.not_lt_of_le whole)⟩
  asks := GuardedPage.hasRoomFor_eq whole
  reads := GuardedPage.get_eq whole
  lists := by
    have header : ¬b.size < 2 := by
      simp only [headerSize] at whole
      omega
    exact ⟨GuardedPage.liveTuples_eq whole, if_neg header⟩
  lies _ _ := get_lies
  inserts tuple := ⟨GuardedPage.insert_eq whole small tuple, insert_iff_room small⟩
  inserted _ _ _ inserted := by
    obtain ⟨-, rfl, -⟩ := insert_eq_ok inserted
    exact ⟨get_of_insert whole small inserted, size_insert inserted,
      (insert_bytes inserted small rfl rfl).1⟩
  refused _ _ _ := insert_refused small
  sane := ⟨fun _ _ => get_sane whole, fun _ _ => delete_sane whole,
    fun _ _ _ refused sized => insert_sane whole small sized refused⟩
  deletes slot := ⟨GuardedPage.delete_eq whole slot, delete_iff_get⟩
  deleted _ _ deleted :=
    ⟨get_of_deleted whole deleted, size_delete deleted, (delete_bytes deleted rfl).1⟩

/-- On a page of 16 bytes two slots share their tuple, the entry of a third one lies over it, and
the free pointer lies in the header. The tuple can be read and one of its slots deleted. -/
theorem damaged_page_is_robust :
    let b : Bytes := #[3, 0, 2, 0, 7, 8, 9, 9, 4, 0, 2, 0, 4, 0, 2, 0]
    headerSize ≤ b.size ∧ b.size ≤ 65535 ∧
    GuardedPage.get b 0 = some (.ok #[7, 8]) ∧ GuardedPage.get b 1 = some (.ok #[7, 8]) ∧
    GuardedPage.insert b #[] = some (b, .error (.pageFull 4 0)) ∧
    GuardedPage.delete b 0 =
      some (#[3, 0, 2, 0, 7, 8, 9, 9, 4, 0, 2, 0, 0, 0, 0, 0], .ok ()) := by
  intro b
  have robust : Robust b := robust_of_size (by decide) (by decide)
  exact ⟨by decide, by decide, (robust.reads 0).trans (by decide),
    (robust.reads 1).trans (by decide), (robust.inserts #[]).1.trans (by decide),
    (robust.deletes 0).1.trans (by decide)⟩

end SlottedPage

end TransactionalPages
