import TransactionalPages.Bytes

/-!
# Rows

A row is written field by field: its worker, its sequence number, the length of
its payload and the bytes of the payload. How the numbers look is left to the
format. A reader stands at a position of a byte string and answers with what it
found there and with the position behind it.
-/

namespace TransactionalPages

structure Row where
  worker : UInt32
  seq : UInt64
  payload : Bytes
  deriving DecidableEq, Repr

/-- The bytes end before the row does. -/
inductive RowError where
  | truncated
  deriving DecidableEq, Repr

namespace RowError

def message : RowError → String
  | truncated => "io error: unexpected end of file"

end RowError

/-- How values of one kind are written, and how they are read from a position on. -/
structure Codec (α : Type) where
  write : α → Bytes
  read : Bytes → (start : Nat) → Except RowError (α × Nat)

namespace Codec

variable {α : Type}

/-- Numbers in a fixed number of bytes, low byte first. -/
def little (width : Nat) (toNat : α → Nat) (ofNat : Nat → α) : Codec α where
  write a := Bytes.little width (toNat a)
  read b start :=
    if b.size < start + width then .error .truncated
    else .ok (ofNat (Bytes.natAt b start width), start + width)

/-- The length of a sequence as a number of 64 bits. -/
def asLength (c : Codec UInt64) : Codec Nat where
  write n := c.write (UInt64.ofNat n)
  read b start := (c.read b start).map fun (n, next) => (n.toNat, next)

/-- Writes values one after another behind what is written already. -/
def writeAll (c : Codec α) (values : List α) (written : Bytes) : Bytes :=
  values.foldl (fun written a => written ++ c.write a) written

/-- Reads `left` values one after another and adds them to `found`. -/
def readMany (c : Codec α) (b : Bytes) :
    (left start : Nat) → (found : Array α) → Except RowError (Array α × Nat)
  | 0, start, found => .ok (found, start)
  | left + 1, start, found =>
    match c.read b start with
    | .error e => .error e
    | .ok (a, next) => readMany c b left next (found.push a)

end Codec

/-- What a format makes of the numbers of a row, of the length of a sequence, and of bytes that
remain when a row has been read. -/
structure RowFormat where
  u8 : Codec UInt8
  u32 : Codec UInt32
  u64 : Codec UInt64
  length : Codec Nat
  remain : Bytes → (start : Nat) → Except RowError Unit

/-- Numbers have a fixed width and their low byte first, a length is a number of 64 bits, and
bytes may remain. -/
def RowFormat.fixedWidth : RowFormat where
  u8 := .little 1 UInt8.toNat UInt8.ofNat
  u32 := .little 4 UInt32.toNat UInt32.ofNat
  u64 := .little 8 UInt64.toNat UInt64.ofNat
  length := (Codec.little 8 UInt64.toNat UInt64.ofNat).asLength
  remain _ _ := .ok ()

namespace Row

def encode (r : Row) (format : RowFormat := .fixedWidth) : Bytes :=
  format.u8.writeAll r.payload.toList <|
    format.u32.write r.worker ++ format.u64.write r.seq ++ format.length.write r.payload.size

def decode (b : Bytes) (format : RowFormat := .fixedWidth) : Except RowError Row := do
  let (worker, start) ← format.u32.read b 0
  let (seq, start) ← format.u64.read b start
  let (length, start) ← format.length.read b start
  let (payload, start) ← format.u8.readMany b length start #[]
  format.remain b start
  return ⟨worker, seq, payload⟩

end Row

end TransactionalPages
