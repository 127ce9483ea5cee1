import TransactionalPages.Fault
import TransactionalPages.Identifier

/-!
# Storage errors

The causes for which a page layout or a page store refuses a request, and the
faults that it may meet on the way.
-/

namespace TransactionalPages

/-- What is wrong with the slot of a damaged page. -/
inductive Damage where
  | slotOutside (slot pageBytes : Nat)
  | tupleOutside (slot start stop : Nat)
  deriving DecidableEq, Repr

inductive IoCause where
  | fileMissing
  /-- A file cannot have the length that it is to be given. -/
  | lengthOutOfRange
  | injected
  deriving DecidableEq, Repr

inductive StorageError where
  | pageOutOfRange (page : PageId) (count : UInt32)
  | pageSizeMismatch (expected actual : Nat)
  | tableMismatch (page : PageId) (table : TableId)
  | pageFull (required available : Nat)
  | tupleTooLarge (size pageSize : Nat)
  | tupleNotFound (slot : Nat)
  | invalidSlot (slot count : Nat)
  | corruptPage (damage : Damage)
  | io (cause : IoCause)
  | fault (cause : Fault)
  deriving DecidableEq, Repr

namespace Damage

def message : Damage → String
  | slotOutside slot pageBytes =>
    "slot " ++ toString slot ++ " lies outside a " ++ toString pageBytes ++ "-byte page"
  | tupleOutside slot start stop =>
    "slot " ++ toString slot ++ " points at bytes " ++ toString start ++ ".." ++ toString stop

end Damage

namespace IoCause

def message : IoCause → String
  | fileMissing => "No such file or directory (os error 2)"
  | lengthOutOfRange => "number too large to fit in target type"
  | injected => "injected I/O failure"

end IoCause

namespace StorageError

def message : StorageError → String
  | pageOutOfRange page count =>
    "Page " ++ toString page ++ " is out of range: table has " ++ toString count.toNat ++ " pages"
  | pageSizeMismatch expected actual =>
    "Page size mismatch: expected " ++ toString expected ++ " bytes, got " ++ toString actual
  | tableMismatch page table =>
    "Page " ++ toString page ++ " does not belong to " ++ toString table
  | pageFull required available =>
    "Page is full: requires " ++ toString required ++ " bytes but only " ++
      toString available ++ " available"
  | tupleTooLarge size pageSize =>
    "Tuple of " ++ toString size ++ " bytes can never fit in a " ++ toString pageSize ++
      "-byte page"
  | tupleNotFound slot => "Tuple not found: slot " ++ toString slot ++ " is empty or deleted"
  | invalidSlot slot count =>
    "Invalid slot ID: " ++ toString slot ++ " (count: " ++ toString count ++ ")"
  | corruptPage damage => "Corrupt heap page: " ++ damage.message
  | io cause => "IO error: " ++ cause.message
  | fault cause => "Fault: " ++ cause.message

/-- The messages of what lies behind an error, nearest first. -/
def causes : StorageError → List String
  | io cause => [cause.message]
  | _ => []

def fault? : StorageError → Option Fault
  | fault cause => some cause
  | _ => none

def isFault (e : StorageError) : Bool := e.fault?.isSome

end StorageError

end TransactionalPages
