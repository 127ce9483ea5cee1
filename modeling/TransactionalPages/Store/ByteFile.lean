import TransactionalPages.Bytes
import TransactionalPages.Store.Error

/-!
# Byte files

A file is a length and the extents that were written to it. A byte is what the
last extent over it says, and zero where nothing was written, so a file takes no
more room than what was written, however long it is. A length is a 64-bit word,
and only the lower half of these are lengths of files.
-/

namespace TransactionalPages

/-- Bytes with their place in a file. -/
structure Extent where
  start : Nat
  data : Bytes
  deriving DecidableEq, Repr

namespace Extent

/-- Where the extent ends. -/
def stop (e : Extent) : Nat := e.start + e.data.size

def covers (e : Extent) (i : Nat) : Bool := e.start ≤ i && i < e.stop

/-- Whether the extent lies between two places. -/
def within (e : Extent) (start stop : Nat) : Bool := start ≤ e.start && e.stop ≤ stop

/-- Whether some byte of the extent may lie between two places. -/
def meets (e : Extent) (start stop : Nat) : Bool := e.start < stop && start < e.stop

/-- The extent without the bytes from a place on. -/
def before (e : Extent) (place : Nat) : Extent :=
  if e.stop ≤ place then e else { e with data := e.data.extract 0 (place - e.start) }

/-- The byte at a place according to the first extent over it. -/
def byteOf : List Extent → Nat → UInt8
  | [], _ => 0
  | e :: rest, i => if e.covers i then e.data.byte (i - e.start) else byteOf rest i

end Extent

structure ByteFile where
  length : Nat
  /-- The extent that was written last comes first. -/
  written : List Extent
  deriving DecidableEq, Repr, Inhabited

namespace ByteFile

def empty : ByteFile := ⟨0, []⟩

def byte (f : ByteFile) (i : Nat) : UInt8 := Extent.byteOf f.written i

/-- Cuts the file, or extends it with zeros. -/
def setLength (f : ByteFile) (length : Nat) : ByteFile :=
  ⟨length, f.written.map fun e => e.before length⟩

/-- Gives the file a length, if that is the length of a file. -/
def resize (f : ByteFile) (length : Nat) : Except StorageError ByteFile :=
  if Limit.word < length then .error (.fault .sizeOutOfRange)
  else if Limit.fileLength < length then .error (.io .lengthOutOfRange)
  else .ok (f.setLength length)

/-- Makes the file at least that long. -/
def reach (f : ByteFile) (length : Nat) : Except StorageError ByteFile :=
  if f.length < length then f.resize length else .ok f

/-- The `n` bytes from `start` on, byte by byte. -/
def collect (f : ByteFile) (start n : Nat) : Bytes :=
  let met := f.written.filter fun e => e.meets start (start + n)
  ((List.range n).map fun i => Extent.byteOf met (start + i)).toArray

/-- The `n` bytes from `start` on. They need not be collected if they were written all at once
and not touched since, or not written at all. -/
def read (f : ByteFile) (start n : Nat) : Bytes :=
  match f.written.find? fun e => e.meets start (start + n) with
  | none => Bytes.zeros n
  | some e => if e.start = start ∧ e.data.size = n then e.data else f.collect start n

/-- Writes bytes from `start` on. The extents that they hide altogether are forgotten. -/
def write (f : ByteFile) (start : Nat) (data : Bytes) : ByteFile :=
  ⟨max f.length (start + data.size),
    ⟨start, data⟩ :: f.written.filter fun e => !e.within start (start + data.size)⟩

end ByteFile

end TransactionalPages
