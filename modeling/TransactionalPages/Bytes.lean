/-!
# Byte strings

A byte string reads as zero beyond its end, so that a page header can be looked
at before anything is known about its length. Numbers are stored with their low
byte first, in a width that the writer chooses; what does not fit is dropped.
-/

namespace TransactionalPages

abbrev Bytes := Array UInt8

namespace Bytes

/-- The byte at a position, zero beyond the end. -/
def byte (b : Bytes) (i : Nat) : UInt8 := b.getD i 0

def zeros (n : Nat) : Bytes := Array.replicate n 0

/-- The `n` bytes from `start` on. -/
def slice (b : Bytes) (start n : Nat) : Bytes :=
  b.extract start (start + n)

/-- Overwrites bytes one after another from `start` on, as far as the byte string reaches. -/
def setFrom (b : Bytes) : (start : Nat) → List UInt8 → Bytes
  | _, [] => b
  | start, x :: rest => setFrom (b.setIfInBounds start x) (start + 1) rest

/-- Overwrites the bytes from `start` on. A byte string that is too short is first extended with
zeros. -/
def patch (b : Bytes) (start : Nat) (new : Bytes) : Bytes :=
  setFrom (b ++ zeros (start + new.size - b.size)) start new.toList

/-- The lowest `width` bytes of a number, low byte first. -/
def ofNat : (width : Nat) → Nat → List UInt8
  | 0, _ => []
  | width + 1, n => UInt8.ofNat n :: ofNat width (n / 256)

/-- A number as `width` bytes, low byte first. -/
def little (width n : Nat) : Bytes := (ofNat width n).toArray

/-- The number in the `width` bytes from `start` on, low byte first. -/
def natAt (b : Bytes) : (start width : Nat) → Nat
  | _, 0 => 0
  | start, width + 1 => (b.byte start).toNat + 256 * natAt b (start + 1) width

end Bytes

end TransactionalPages
