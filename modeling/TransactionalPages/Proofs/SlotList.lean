import TransactionalPages.Proofs.SlottedPage

/-!
# A page as a list of slots

A page that is filled from zeros is a list of slots that grows at its end. A tuple
is appended under the number that the list has slots so far, and keeps that number.
Deleting it leaves the slot in its place, and its bytes where they are: the room on
the page is taken by all tuples that were ever laid down, and by their slots. This
is all that decides whether another tuple goes in.

So a slot of the list remembers its tuple after it was deleted, though nobody can
read it any more. An empty tuple is not a deleted one.
-/

namespace TransactionalPages

/-- A slot with the tuple that was laid down for it. -/
structure Slot where
  tuple : Bytes
  live : Bool
  deriving DecidableEq, Repr

/-- What can be asked of a page that changes it. -/
inductive SlotRequest where
  | insert (tuple : Bytes)
  | delete (slot : Nat)
  deriving DecidableEq, Repr

namespace Slot

def shown (s : Slot) : Option Bytes := if s.live then some s.tuple else none

def kill (s : Slot) : Slot := { s with live := false }

end Slot

/-! ## The list -/

namespace SlotList

open SlottedPage (headerSize slotSize)

/-- The bytes of all tuples, of the deleted ones, too. -/
def laid : List Slot → Nat
  | [] => 0
  | s :: rest => s.tuple.size + laid rest

/-- Whether a tuple goes on a page of `size` bytes with these slots. -/
def Fits (size : Nat) (slots : List Slot) (tuple : Bytes) : Prop :=
  headerSize + laid slots + slotSize * (slots.length + 1) + tuple.size ≤ size

instance (size : Nat) (slots : List Slot) (tuple : Bytes) : Decidable (Fits size slots tuple) :=
  inferInstanceAs (Decidable (_ ≤ _))

/-- The bytes that neither a tuple nor a slot has taken. -/
def room (size : Nat) (slots : List Slot) : Nat :=
  size - (headerSize + laid slots + slotSize * slots.length)

/-- Why a tuple does not go in: the page is full. Only a size that no word can hold is a fault. -/
def refusal (size : Nat) (slots : List Slot) (tuple : Bytes) : StorageError :=
  if Limit.word < tuple.size + slotSize then .fault .sizeOutOfRange
  else .pageFull (tuple.size + slotSize) (room size slots)

def get (slots : List Slot) (i : Nat) : Except StorageError Bytes :=
  match slots[i]? with
  | none => .error (.invalidSlot i slots.length)
  | some s => if s.live then .ok s.tuple else .error (.tupleNotFound i)

/-- The live slots with their numbers, which begin with `start`. -/
def liveFrom : (start : Nat) → List Slot → List (Nat × Bytes)
  | _, [] => []
  | start, s :: rest =>
    if s.live then (start, s.tuple) :: liveFrom (start + 1) rest else liveFrom (start + 1) rest

def serve (size : Nat) (slots : List Slot) : SlotRequest → List Slot
  | .insert tuple => if Fits size slots tuple then slots ++ [⟨tuple, true⟩] else slots
  | .delete slot => slots.modify slot Slot.kill

/-- The slots after a number of requests. -/
def serveAll (size : Nat) (slots : List Slot) (requests : List SlotRequest) : List Slot :=
  requests.foldl (serve size) slots

variable {i : Nat} {slots : List Slot} {s : Slot}

theorem map_shown_kill (slots : List Slot) (i : Nat) :
    (slots.modify i Slot.kill).map Slot.shown = (slots.map Slot.shown).set i none := by
  apply List.ext_getElem?
  intro j
  rw [List.getElem?_map, List.getElem?_modify, List.getElem?_set, List.getElem?_map,
    List.length_map]
  by_cases same : i = j
  · subst same
    by_cases within : i < slots.length
    · simp [within, Slot.kill, Slot.shown]
    · simp [within]
  · simp [same]

theorem laid_kill (slots : List Slot) (i : Nat) :
    laid (slots.modify i Slot.kill) = laid slots := by
  induction slots generalizing i with
  | nil => rw [List.modify_nil]
  | cons s rest ih =>
    cases i with
    | zero => rfl
    | succ i => exact congrArg (s.tuple.size + ·) (ih i)

/-- What cannot be read is not there or dead already. -/
theorem kill_of_refused {e : StorageError} (refused : get slots i = .error e) :
    slots.modify i Slot.kill = slots := by
  apply List.ext_getElem?
  intro j
  rw [List.getElem?_modify]
  by_cases same : i = j
  · subst same
    simp only [get] at refused
    cases here : slots[i]? with
    | none => simp
    | some s =>
      obtain ⟨tuple, live⟩ := s
      cases live with
      | false => simp [Slot.kill]
      | true => simp [here] at refused
  · simp [same]

theorem laid_append (slots : List Slot) (s : Slot) :
    laid (slots ++ [s]) = laid slots + s.tuple.size := by
  induction slots with
  | nil => exact Nat.add_comm _ _
  | cons first rest ih =>
    simp only [List.cons_append, laid, ih]
    omega

/-- A slot keeps its number and its tuple, and does not come back to life. -/
theorem serve_stays (size : Nat) (here : slots[i]? = some s) (request : SlotRequest) :
    ∃ later, (serve size slots request)[i]? = some later ∧ later.tuple = s.tuple ∧
      (later.live = true → s.live = true) := by
  have within : i < slots.length := (List.getElem?_eq_some_iff.mp here).1
  cases request with
  | insert tuple =>
    refine ⟨s, ?_, rfl, id⟩
    simp only [serve]
    split
    · rw [List.getElem?_append_left within]
      exact here
    · exact here
  | delete slot =>
    simp only [serve]
    rw [List.getElem?_modify, here]
    by_cases same : slot = i
    · refine ⟨s.kill, by simp [same], rfl, fun live => ?_⟩
      cases live
    · exact ⟨s, by simp [same], rfl, id⟩

theorem serveAll_stays (size : Nat) (here : slots[i]? = some s) (requests : List SlotRequest) :
    ∃ later, (serveAll size slots requests)[i]? = some later ∧ later.tuple = s.tuple ∧
      (later.live = true → s.live = true) := by
  induction requests generalizing slots s with
  | nil => exact ⟨s, here, rfl, id⟩
  | cons request rest ih =>
    obtain ⟨next, there, sameNext, aliveNext⟩ := serve_stays size here request
    obtain ⟨later, found, same, alive⟩ := ih there
    exact ⟨later, found, same.trans sameNext, fun live => aliveNext (alive live)⟩

theorem get_eq_ok {tuple : Bytes} : get slots i = .ok tuple ↔
    slots[i]? = some ⟨tuple, true⟩ := by
  simp only [get]
  cases slots[i]? with
  | none => simp
  | some s =>
    obtain ⟨laid, live⟩ := s
    cases live <;> simp

theorem get_eq_deleted : get slots i = .error (.tupleNotFound i) ↔
    ∃ tuple, slots[i]? = some ⟨tuple, false⟩ := by
  simp only [get]
  cases slots[i]? with
  | none => simp
  | some s =>
    obtain ⟨laid, live⟩ := s
    cases live <;> simp

/-- The live slots are those that can be read, if the list is read from `start` on. -/
theorem filterMap_get_eq (slots : List Slot) {rest : List Slot} {start : Nat}
    (from_start : ∀ i, slots[start + i]? = rest[i]?) :
    (List.range' start rest.length).filterMap (fun slot =>
      match get slots slot with
      | .ok tuple => some (slot, tuple)
      | .error _ => none) = liveFrom start rest := by
  induction rest generalizing start with
  | nil => rfl
  | cons s rest ih =>
    have here : slots[start]? = some s := from_start 0
    have later : ∀ i, slots[start + 1 + i]? = rest[i]? := fun i => by
      rw [Nat.add_assoc, Nat.add_comm 1 i]
      exact from_start (i + 1)
    rw [List.length_cons, List.range'_succ, List.filterMap_cons, ih later]
    simp only [get, here, liveFrom]
    cases s.live <;> rfl

end SlotList

/-! ## The page -/

namespace SlottedPage

def serve (b : Bytes) : SlotRequest → Bytes
  | .insert tuple => (insert b tuple).1
  | .delete slot =>
    match delete b slot with
    | .ok new => new
    | .error _ => b

/-- The bytes after a number of requests. -/
def serveAll (b : Bytes) (requests : List SlotRequest) : Bytes := requests.foldl serve b

/-- A page answers each question as its slots do, and changes only where they do. -/
structure Follows (b : Bytes) (size : Nat) (slots : List Slot) : Prop where
  sized : b.size = size
  counted : slotCount? b = .ok slots.length
  read : ∀ i, get b i = SlotList.get slots i
  listed : liveTuples? b = .ok (SlotList.liveFrom 0 slots)
  inserted : ∀ tuple, SlotList.Fits size slots tuple →
    ∃ new, insert b tuple = (new, .ok slots.length)
  refused : ∀ tuple, ¬SlotList.Fits size slots tuple →
    insert b tuple = (b, .error (SlotList.refusal size slots tuple))
  deleted : ∀ i tuple, SlotList.get slots i = .ok tuple → ∃ new, delete b i = .ok new
  kept : ∀ i e, SlotList.get slots i = .error e → delete b i = .error e ∧ serve b (.delete i) = b

/-- What can be read under a number can be read under it later, until it is deleted, and nothing
else comes in its place. -/
structure Stays (b later : Bytes) : Prop where
  live : ∀ i tuple, get b i = .ok tuple →
    get later i = .ok tuple ∨ get later i = .error (.tupleNotFound i)
  deleted : ∀ i, get b i = .error (.tupleNotFound i) → get later i = .error (.tupleNotFound i)

/-- A page stands for its slots, and their tuples fill it from the header to the free pointer. -/
structure Packs (b : Bytes) (size : Nat) (slots : List Slot) : Prop where
  sized : b.size = size
  stands : Represents b (slots.map Slot.shown)
  packed : freePointer b = headerSize + SlotList.laid slots

variable {b : Bytes} {size : Nat} {slots : List Slot}

theorem packs_zeros (whole : headerSize ≤ size) (small : size ≤ 65535) :
    Packs (Bytes.zeros size) size [] where
  sized := Bytes.size_zeros size
  stands := represents_zeros whole small
  packed := if_pos (Bytes.natAt_zeros size 2)

namespace Packs

theorem count (packs : Packs b size slots) : slotCount b = slots.length := by
  rw [packs.stands.count, List.length_map]

theorem header (packs : Packs b size slots) : headerSize ≤ b.size := by
  have fits := packs.stands.fits
  have header := packs.stands.header
  omega

theorem freeSpace (packs : Packs b size slots) : freeSpace b = SlotList.room size slots := by
  have header := packs.stands.header
  simp only [SlottedPage.freeSpace, SlotList.room]
  rw [if_neg (Nat.not_lt.mpr header), packs.count, packs.packed, packs.sized]
  simp only [slotSize]
  omega

/-- There is room for a tuple and its slot exactly if they fit. -/
theorem hasRoomFor (packs : Packs b size slots) (tuple : Bytes) :
    hasRoomFor b tuple.size = true ↔ SlotList.Fits size slots tuple := by
  have fits := packs.stands.fits
  rw [packs.packed, packs.sized, List.length_map] at fits
  simp only [SlottedPage.hasRoomFor, packs.freeSpace, SlotList.room, SlotList.Fits, slotSize,
    decide_eq_true_eq] at *
  omega

theorem insert_ok {tuple : Bytes} (packs : Packs b size slots)
    (fits : SlotList.Fits size slots tuple) :
    ∃ new, insert b tuple = (new, .ok slots.length) := by
  have small := packs.stands.small
  have asked : hasRoomFor? b tuple.size = .ok true := by
    have within : ¬Limit.word < tuple.size + slotSize := by
      have bounded : SlotList.Fits b.size slots tuple := packs.sized ▸ fits
      simp only [SlotList.Fits, slotSize, Limit.word] at *
      omega
    simp only [hasRoomFor?]
    rw [if_neg (Nat.not_lt.mpr packs.header), if_neg within, (packs.hasRoomFor tuple).mpr fits]
  rw [← packs.count]
  exact insert_of_room small asked

theorem insert_error {tuple : Bytes} (packs : Packs b size slots)
    (full : ¬SlotList.Fits size slots tuple) :
    insert b tuple = (b, .error (SlotList.refusal size slots tuple)) := by
  have none : SlottedPage.hasRoomFor b tuple.size = false :=
    Bool.eq_false_iff.mpr fun room => full ((packs.hasRoomFor tuple).mp room)
  simp only [SlottedPage.insert, hasRoomFor?, SlotList.refusal]
  rw [if_neg (Nat.not_lt.mpr packs.header)]
  by_cases large : Limit.word < tuple.size + slotSize
  · simp only [if_pos large]
  · simp only [if_neg large, none, packs.freeSpace]

theorem get (packs : Packs b size slots) (i : Nat) : get b i = SlotList.get slots i := by
  have shown : (slots.map Slot.shown)[i]? = slots[i]?.map Slot.shown := List.getElem?_map
  simp only [SlotList.get]
  cases here : slots[i]? with
  | none =>
    rw [here] at shown
    rw [packs.stands.get_beyond shown, List.length_map]
  | some s =>
    rw [here] at shown
    obtain ⟨tuple, live⟩ := s
    cases live with
    | true => exact packs.stands.get_live shown
    | false => exact packs.stands.get_deleted shown

theorem liveTuples (packs : Packs b size slots) :
    liveTuples b = SlotList.liveFrom 0 slots := by
  simp only [SlottedPage.liveTuples, packs.count, packs.get]
  rw [List.range_eq_range']
  exact SlotList.filterMap_get_eq slots fun i => by rw [Nat.zero_add]

theorem delete_ok {i : Nat} {tuple : Bytes} (packs : Packs b size slots)
    (live : SlotList.get slots i = .ok tuple) : ∃ new, delete b i = .ok new := by
  have here := SlotList.get_eq_ok.mp live
  have within : i < (slots.map Slot.shown).length := by
    rw [List.length_map]
    exact (List.getElem?_eq_some_iff.mp here).1
  refine ⟨Bytes.patch b (entryAt b i) (Bytes.zeros slotSize), ?_⟩
  simp only [delete, packs.get, live, packs.stands.slotOffset? within]

theorem delete_error {i : Nat} {e : StorageError} (packs : Packs b size slots)
    (refused : SlotList.get slots i = .error e) : delete b i = .error e := by
  simp only [delete, packs.get, refused]

theorem insert {tuple : Bytes} (packs : Packs b size slots) :
    Packs (serve b (.insert tuple)) size (SlotList.serve size slots (.insert tuple)) := by
  by_cases fits : SlotList.Fits size slots tuple
  · obtain ⟨new, inserted⟩ := packs.insert_ok fits
    obtain ⟨_, stands⟩ := packs.stands.insert inserted
    obtain ⟨_, _, pointer, _⟩ := insert_bytes inserted packs.stands.small rfl rfl
    simp only [serve, SlotList.serve, inserted, if_pos fits]
    refine ⟨(size_insert inserted).trans packs.sized, ?_, ?_⟩
    · rw [List.map_append]
      exact stands
    · rw [pointer, packs.packed, SlotList.laid_append, Nat.add_assoc]
  · simp only [serve, SlotList.serve, packs.insert_error fits, if_neg fits]
    exact packs

theorem delete {i : Nat} (packs : Packs b size slots) :
    Packs (serve b (.delete i)) size (SlotList.serve size slots (.delete i)) := by
  cases read : SlotList.get slots i with
  | ok tuple =>
    obtain ⟨new, deleted⟩ := packs.delete_ok read
    obtain ⟨_, stands⟩ := packs.stands.delete deleted
    obtain ⟨_, _, pointer, _⟩ := delete_bytes deleted rfl
    simp only [serve, SlotList.serve, deleted]
    refine ⟨(size_delete deleted).trans packs.sized, ?_, ?_⟩
    · rw [SlotList.map_shown_kill]
      exact stands
    · rw [pointer, packs.packed, SlotList.laid_kill]
  | error e =>
    simp only [serve, SlotList.serve, packs.delete_error read, SlotList.kill_of_refused read]
    exact packs

theorem serve (packs : Packs b size slots) (request : SlotRequest) :
    Packs (serve b request) size (SlotList.serve size slots request) := by
  cases request with
  | insert tuple => exact packs.insert
  | delete i => exact packs.delete

theorem serveAll (packs : Packs b size slots) (requests : List SlotRequest) :
    Packs (serveAll b requests) size (SlotList.serveAll size slots requests) := by
  induction requests generalizing b slots with
  | nil => exact packs
  | cons request rest ih => exact ih (packs.serve request)

theorem follows (packs : Packs b size slots) : Follows b size slots := by
  have whole : ¬b.size < 2 := by
    have header := packs.header
    simp only [headerSize] at header
    omega
  refine ⟨packs.sized, ?_, packs.get, ?_, fun tuple => packs.insert_ok,
    fun tuple => packs.insert_error, fun i tuple => packs.delete_ok, fun i e refused => ?_⟩
  · rw [slotCount?, if_neg whole, packs.count]
  · rw [liveTuples?, if_neg whole, packs.liveTuples]
  · have same : SlottedPage.delete b i = .error e := packs.delete_error refused
    exact ⟨same, by simp only [SlottedPage.serve, same]⟩

theorem stays (packs : Packs b size slots) (requests : List SlotRequest) :
    Stays b (SlottedPage.serveAll b requests) := by
  have after := packs.serveAll requests
  refine ⟨fun i tuple read => ?_, fun i gone => ?_⟩
  · rw [packs.get] at read
    obtain ⟨⟨same, live⟩, there, rfl, _⟩ :=
      SlotList.serveAll_stays size (SlotList.get_eq_ok.mp read) requests
    rw [after.get]
    cases live with
    | true => exact Or.inl (SlotList.get_eq_ok.mpr there)
    | false => exact Or.inr (SlotList.get_eq_deleted.mpr ⟨same, there⟩)
  · rw [packs.get] at gone
    obtain ⟨tuple, here⟩ := SlotList.get_eq_deleted.mp gone
    obtain ⟨⟨same, live⟩, there, _, dead⟩ := SlotList.serveAll_stays size here requests
    rw [after.get]
    cases live with
    | true => cases dead rfl
    | false => exact SlotList.get_eq_deleted.mpr ⟨same, there⟩

end Packs

/-- A page that starts as zeros and is no longer than 65535 bytes follows a list of slots through
all inserts and deletes, and whatever is asked of it later moves no slot. -/
theorem page_follows_slots (whole : headerSize ≤ size) (small : size ≤ 65535)
    (requests : List SlotRequest) :
    Follows (serveAll (Bytes.zeros size) requests) size (SlotList.serveAll size [] requests) ∧
    ∀ more, Stays (serveAll (Bytes.zeros size) requests)
      (serveAll (Bytes.zeros size) (requests ++ more)) := by
  have packs := (packs_zeros whole small).serveAll requests
  refine ⟨packs.follows, fun more => ?_⟩
  have later : serveAll (Bytes.zeros size) (requests ++ more) =
      serveAll (serveAll (Bytes.zeros size) requests) more := List.foldl_append
  rw [later]
  exact packs.stays more

/-- On a page of 21 bytes three tuples lie, one of them empty and one deleted, and there is not
even room for a slot. -/
theorem full_page_follows_slots :
    let requests : List SlotRequest :=
      [.insert #[], .insert #[7, 8, 9], .delete 1, .insert #[1, 2], .insert #[], .delete 1]
    let b := serveAll (Bytes.zeros 21) requests
    headerSize ≤ 21 ∧ 21 ≤ 65535 ∧
    get b 0 = .ok #[] ∧ get b 1 = .error (.tupleNotFound 1) ∧ get b 2 = .ok #[1, 2] ∧
    get b 3 = .error (.invalidSlot 3 3) ∧ liveTuples? b = .ok [(0, #[]), (2, #[1, 2])] ∧
    insert b #[] = (b, .error (.pageFull 4 0)) := by
  intro requests b
  obtain ⟨follows, _⟩ :=
    page_follows_slots (by decide : headerSize ≤ 21) (by decide) requests
  exact ⟨by decide, by decide, follows.read 0, follows.read 1, follows.read 2, follows.read 3,
    follows.listed, follows.refused #[] (by decide)⟩

end SlottedPage

end TransactionalPages
