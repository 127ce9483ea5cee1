/-!
# Outages

An outage says which of the coming calls of one kind reach a store. It counts
the calls as they are made, whether they reach the store or not.
-/

namespace TransactionalPages

structure Outage where
  /-- The number of calls made so far. -/
  made : Nat
  /-- Whether the call with this number gets through. -/
  works : Nat → Bool

namespace Outage

/-- Every call gets through. -/
def never : Outage := ⟨0, fun _ => true⟩

/-- Only the next `n` calls get through. -/
def after (n : Nat) : Outage := ⟨0, fun call => call < n⟩

def next (o : Outage) : Outage := { o with made := o.made + 1 }

/-- Whether the coming call gets through. -/
def passes (o : Outage) : Bool := o.works o.made

end Outage

end TransactionalPages
