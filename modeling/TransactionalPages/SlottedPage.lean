import TransactionalPages.Bytes
import TransactionalPages.Store.Error

/-!
# Slotted pages

A slotted page is a byte string with a header of four bytes, the number of slots
and the free pointer, each in two bytes. Tuples are laid down from the header
upwards and four-byte slots, an offset and a length, from the end downwards. A
page of zeros is an empty page. A deleted slot is zeroed and keeps its place, so
that the names of the other tuples stay valid.

All fields have two bytes. On a page of more than 65535 bytes the offsets and
lengths that are written into them are cut to their low 16 bits; the number of
slots is not, and cannot be counted up beyond 65535.
-/

namespace TransactionalPages.SlottedPage

def headerSize : Nat := 4

def slotSize : Nat := 4

/-- The largest number of slots. -/
def maxSlots : Nat := 65535

/-- The largest tuple that fits on an empty page. -/
def maxTupleSize (pageSize : Nat) : Nat := pageSize - (headerSize + slotSize)

def slotCount (b : Bytes) : Nat := Bytes.natAt b 0 2

/-- Where the next tuple goes; a free pointer of zero stands for the end of the header. -/
def freePointer (b : Bytes) : Nat :=
  if Bytes.natAt b 2 2 = 0 then headerSize else Bytes.natAt b 2 2

/-- Where a slot's entry begins, if the entry does not run into the header. -/
def slotOffset? (b : Bytes) (slot : Nat) : Option Nat :=
  if (slot + 1) * slotSize + headerSize ≤ b.size then some (b.size - (slot + 1) * slotSize)
  else none

/-- The bytes between the tuples and the slots, none on a page with a damaged header. -/
def freeSpace (b : Bytes) : Nat :=
  if freePointer b < headerSize then 0
  else b.size - slotCount b * slotSize - freePointer b

def hasRoomFor (b : Bytes) (size : Nat) : Bool := size + slotSize ≤ freeSpace b

def tupleOffset (b : Bytes) (entry : Nat) : Nat := Bytes.natAt b entry 2

def tupleLength (b : Bytes) (entry : Nat) : Nat := Bytes.natAt b (entry + 2) 2

/-- The tuple that a slot entry points at, which must lie between the header and the entry. -/
def tupleAt (b : Bytes) (slot entry : Nat) : Except StorageError Bytes :=
  if tupleOffset b entry = 0 ∧ tupleLength b entry = 0 then .error (.tupleNotFound slot)
  else if tupleOffset b entry < headerSize ∨
      entry < tupleOffset b entry + tupleLength b entry then
    .error (.corruptPage (.tupleOutside slot (tupleOffset b entry)
      (tupleOffset b entry + tupleLength b entry)))
  else .ok (Bytes.slice b (tupleOffset b entry) (tupleLength b entry))

def get (b : Bytes) (slot : Nat) : Except StorageError Bytes :=
  if b.size < 2 then .error (.fault .headerMissing)
  else if slotCount b ≤ slot then .error (.invalidSlot slot (slotCount b))
  else match slotOffset? b slot with
    | none => .error (.corruptPage (.slotOutside slot b.size))
    | some entry => tupleAt b slot entry

/-- The live tuples in the order of their slots. Slots that cannot be read are passed over. -/
def liveTuples (b : Bytes) : List (Nat × Bytes) :=
  (List.range (slotCount b)).filterMap fun slot =>
    match get b slot with
    | .ok tuple => some (slot, tuple)
    | .error _ => none

/-- The same questions, refused where the page is too short for the header field they read. A
size is asked about together with its slot, and the sum must be in range. -/
def slotCount? (b : Bytes) : Except StorageError Nat :=
  if b.size < 2 then .error (.fault .headerMissing) else .ok (slotCount b)

def freeSpace? (b : Bytes) : Except StorageError Nat :=
  if b.size < headerSize then .error (.fault .headerMissing) else .ok (freeSpace b)

def hasRoomFor? (b : Bytes) (size : Nat) : Except StorageError Bool :=
  if b.size < headerSize then .error (.fault .headerMissing)
  else if Limit.word < size + slotSize then .error (.fault .sizeOutOfRange)
  else .ok (hasRoomFor b size)

def liveTuples? (b : Bytes) : Except StorageError (List (Nat × Bytes)) :=
  if b.size < 2 then .error (.fault .headerMissing) else .ok (liveTuples b)

/-- The bytes after a tuple has been laid down under a new slot that is not counted yet. -/
def lay (b tuple : Bytes) (entry : Nat) : Bytes :=
  let start := freePointer b
  let b := Bytes.patch b start tuple
  let b := Bytes.patch b entry (Bytes.little 2 start)
  let b := Bytes.patch b (entry + 2) (Bytes.little 2 tuple.size)
  Bytes.patch b 2 (Bytes.little 2 (start + tuple.size))

/-- Counts a slot up to `count`. -/
def setSlotCount (b : Bytes) (count : Nat) : Bytes := Bytes.patch b 0 (Bytes.little 2 count)

/-- Lays a tuple down and answers with its slot. A page that has all its slots already is left
with the tuple laid down and not counted. -/
def insert (b tuple : Bytes) : Bytes × Except StorageError Nat :=
  match hasRoomFor? b tuple.size with
  | .error e => (b, .error e)
  | .ok false => (b, .error (.pageFull (tuple.size + slotSize) (freeSpace b)))
  | .ok true =>
    match slotOffset? b (slotCount b) with
    | none => (b, .error (.corruptPage (.slotOutside (slotCount b) b.size)))
    | some entry =>
      if slotCount b = maxSlots then (lay b tuple entry, .error (.fault .countExhausted))
      else (setSlotCount (lay b tuple entry) (slotCount b + 1), .ok (slotCount b))

/-- Zeroes the entry of a live slot; a slot that cannot be read cannot be deleted. -/
def delete (b : Bytes) (slot : Nat) : Except StorageError Bytes :=
  match get b slot with
  | .error e => .error e
  | .ok _ =>
    match slotOffset? b slot with
    | none => .error (.corruptPage (.slotOutside slot b.size))
    | some entry => .ok (Bytes.patch b entry (Bytes.zeros slotSize))

end TransactionalPages.SlottedPage
