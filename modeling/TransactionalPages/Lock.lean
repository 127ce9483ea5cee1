import TransactionalPages.Identifier
import Std.Data.TreeMap
import Std.Data.TreeSet

/-!
# Page locks

A lock table records, for each page, who holds it in which mode, and for each
transaction which pages it holds. It only decides whether a request is granted
now; waiting is not its business. A transaction that asks again for what it has
is granted it, and the only holder of a shared lock may make it exclusive.
-/

namespace TransactionalPages

inductive LockMode where
  | shared
  | exclusive
  deriving DecidableEq, Repr, Inhabited

/-- What a transaction wants to do with a page. -/
inductive Permission where
  | readOnly
  | readWrite
  deriving DecidableEq, Repr, Inhabited

namespace LockMode

/-- Whether two transactions may hold these modes on one page. -/
def compatible : LockMode → LockMode → Bool
  | shared, shared => true
  | _, _ => false

end LockMode

namespace Permission

def mode : Permission → LockMode
  | readOnly => .shared
  | readWrite => .exclusive

end Permission

abbrev Holders := Std.TreeMap TransactionId LockMode

structure LockTable where
  holders : Std.TreeMap PageId Holders
  pages : Std.TreeMap TransactionId (Std.TreeSet PageId)
  deriving Inhabited

namespace LockTable

def empty : LockTable := ⟨∅, ∅⟩

def holdersOf (t : LockTable) (page : PageId) : Holders := t.holders.getD page ∅

def pageSet (t : LockTable) (txn : TransactionId) : Std.TreeSet PageId := t.pages.getD txn ∅

def mode? (t : LockTable) (txn : TransactionId) (page : PageId) : Option LockMode :=
  (t.holdersOf page)[txn]?

def holds (t : LockTable) (txn : TransactionId) (page : PageId) : Bool :=
  (t.mode? txn page).isSome

/-- The transactions that hold a page, in increasing order. -/
def holderList (t : LockTable) (page : PageId) : List TransactionId := (t.holdersOf page).keys

/-- The pages that a transaction holds, in increasing order. -/
def pagesHeldBy (t : LockTable) (txn : TransactionId) : List PageId := (t.pageSet txn).toList

def grant (t : LockTable) (txn : TransactionId) (page : PageId) (mode : LockMode) : LockTable :=
  ⟨t.holders.insert page ((t.holdersOf page).insert txn mode),
    t.pages.insert txn ((t.pageSet txn).insert page)⟩

/-- Asks for a lock; `none` is a refusal. -/
def acquire (t : LockTable) (txn : TransactionId) (page : PageId) (mode : LockMode) :
    Option LockTable :=
  match t.mode? txn page, mode with
  | some .exclusive, _ => some t
  | some .shared, .shared => some t
  | some .shared, .exclusive =>
    if (t.holdersOf page).size = 1 then
      some { t with holders := t.holders.insert page ((t.holdersOf page).insert txn .exclusive) }
    else none
  | none, mode =>
    if (t.holdersOf page).all fun _ held => held.compatible mode then
      some (t.grant txn page mode)
    else none

/-- Gives one lock back; giving back what is not held changes nothing. -/
def release (t : LockTable) (txn : TransactionId) (page : PageId) : LockTable :=
  if t.holds txn page then
    let left := (t.holdersOf page).erase txn
    let kept := (t.pageSet txn).erase page
    ⟨if left.isEmpty then t.holders.erase page else t.holders.insert page left,
      if kept.isEmpty then t.pages.erase txn else t.pages.insert txn kept⟩
  else t

/-- Gives back every lock of a transaction. -/
def releaseAll (t : LockTable) (txn : TransactionId) : LockTable :=
  (t.pagesHeldBy txn).foldl (fun t page => t.release txn page) t

end LockTable

end TransactionalPages
