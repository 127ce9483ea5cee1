import TransactionalPages.Bytes
import TransactionalPages.Fault
import TransactionalPages.Identifier

/-!
# Pages in memory

A page is dirty exactly when it names a dirtier: the last transaction that wrote
it since it was loaded, written back or rolled back.
-/

namespace TransactionalPages

structure Page where
  id : PageId
  data : Bytes
  dirtier : Option TransactionId
  deriving DecidableEq, Repr, Inhabited

namespace Page

def clean (id : PageId) (data : Bytes) : Page := ⟨id, data, none⟩

/-- A page of zeros, which is also an empty slotted page. -/
def blank (id : PageId) (size : Nat) : Except Fault Page :=
  if Limit.block < size then .error .sizeOutOfRange else .ok (clean id (Bytes.zeros size))

def size (p : Page) : Nat := p.data.size

def isDirty (p : Page) : Bool := p.dirtier.isSome

def markDirty (p : Page) (txn : TransactionId) : Page := { p with dirtier := some txn }

def markClean (p : Page) : Page := { p with dirtier := none }

/-- Takes over the bytes of a stored page and is clean afterwards. -/
def restoreFrom (p stored : Page) : Page := { p with data := stored.data, dirtier := none }

/-- Overwrites bytes inside the page; there is no writing past its end. -/
def overwrite? (p : Page) (start : Nat) (new : Bytes) : Option Page :=
  if start + new.size ≤ p.size then some { p with data := Bytes.patch p.data start new }
  else none

end Page

end TransactionalPages
