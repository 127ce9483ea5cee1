import TransactionalPages.Fault
import TransactionalPages.Identifier
import Std.Data.TreeMap

/-!
# Page caches

A cache files pages under their identifiers and keeps a queue of these. The
front of the queue is the first candidate for eviction; looking a page up and
inserting it move it to the back. Eviction looks for the first clean page and
sends the dirty ones it meets to the back of the queue.
-/

namespace TransactionalPages

structure Cache (α : Type) where
  capacity : Nat
  pages : Std.TreeMap PageId α
  order : List PageId

namespace Cache

variable {α : Type}

def empty (capacity : Nat) : Cache α := ⟨capacity, ∅, []⟩

/-- An empty cache with room reserved for all the pages that it may come to hold. -/
def create (capacity : Nat) : Except Fault (Cache α) :=
  if Limit.cachedPages < capacity then .error .sizeOutOfRange else .ok (empty capacity)

instance : Inhabited (Cache α) := ⟨empty 0⟩

def size (c : Cache α) : Nat := c.pages.size

def isFull (c : Cache α) : Bool := c.capacity ≤ c.size

def contains (c : Cache α) (page : PageId) : Bool := c.pages.contains page

/-- Looks a page up and leaves the queue alone. -/
def peek? (c : Cache α) (page : PageId) : Option α := c.pages[page]?

def toBack (c : Cache α) (page : PageId) : Cache α :=
  { c with order := c.order.erase page ++ [page] }

/-- Looks a page up and makes it the last candidate. -/
def get (c : Cache α) (page : PageId) : Cache α × Option α :=
  match c.peek? page with
  | some a => (c.toBack page, some a)
  | none => (c, none)

/-- Files a page, in place of another one of that name if there is one. Nothing is evicted. -/
def insert (c : Cache α) (page : PageId) (a : α) : Cache α :=
  let filed := { c with pages := c.pages.insert page a }
  if c.contains page then filed.toBack page else { filed with order := c.order ++ [page] }

/-- Changes what is filed under a name, and not its place in the queue. -/
def modify (c : Cache α) (page : PageId) (f : α → α) : Cache α :=
  { c with pages := c.pages.modify page f }

def remove (c : Cache α) (page : PageId) : Cache α × Option α :=
  match c.peek? page with
  | some a => ({ c with pages := c.pages.erase page, order := c.order.erase page }, some a)
  | none => (c, none)

/-- Makes a page the first candidate. -/
def demote (c : Cache α) (page : PageId) : Cache α :=
  if c.contains page then { c with order := page :: c.order.erase page } else c

/-- Looks at the first `n` candidates in turn. -/
def evictWithin (dirty : α → Bool) : Nat → Cache α → Cache α × Option PageId
  | 0, c => (c, none)
  | n + 1, c =>
    match c.order with
    | [] => (c, none)
    | candidate :: rest =>
      if (c.peek? candidate).any dirty then
        evictWithin dirty n { c with order := rest ++ [candidate] }
      else ({ c with pages := c.pages.erase candidate, order := rest }, some candidate)

/-- Drops the first clean page and answers with its name. When every page is dirty the queue
has gone round once and nothing is dropped. -/
def evict (dirty : α → Bool) (c : Cache α) : Cache α × Option PageId :=
  evictWithin dirty c.order.length c

end Cache

end TransactionalPages
