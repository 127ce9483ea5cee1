/-!
# Faults and limits

A fault is not a refusal. It is a question that makes no sense of the thing that
it is asked about, or a number that leaves its range, and whoever meets one stops
where it stands. What was changed before stays changed.

Sizes are natural numbers here. The limits say which of them a 64-bit word, a
block of memory and the length of a file can hold.
-/

namespace TransactionalPages

inductive Fault where
  /-- A page is shorter than the header field that is read. -/
  | headerMissing
  /-- The pages of a store have no bytes, so that they cannot be counted. -/
  | emptyPageSize
  /-- A size is beyond what a word or a block of memory can hold. -/
  | sizeOutOfRange
  /-- A number is counted up that already is the largest of its range. -/
  | countExhausted
  deriving DecidableEq, Repr

namespace Fault

def message : Fault → String
  | headerMissing => "the page is shorter than its header"
  | emptyPageSize => "the store has pages of zero bytes"
  | sizeOutOfRange => "the size is out of range"
  | countExhausted => "the count is exhausted"

end Fault

namespace Limit

/-- The largest number in 64 bits. -/
def word : Nat := 18446744073709551615

/-- The largest number of bytes in one block of memory. -/
def block : Nat := 9223372036854775807

/-- The largest length of a file, which has a sign bit. -/
def fileLength : Nat := 9223372036854775807

/-- The largest number of workers, each of which takes 24 bytes of one block of memory. -/
def workers : Nat := 384307168202282325

/-- The largest number of pages that can be cached. Their index has room for eight entries for
every seven pages, rounded up to a power of two, and fits into a block of memory with up to
288230376151711744 entries. -/
def cachedPages : Nat := 252201579132747776

end Limit

end TransactionalPages
