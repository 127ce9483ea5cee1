import TransactionalPages.Identifier
import Std.Data.TreeMap
import Std.Data.TreeSet

/-!
# Wait-for graphs

An edge leads from a transaction to one whose lock it waits for. A cycle is
found by peeling: transactions that nobody waits for are taken away one after
another, together with their edges, until no such transaction is left. What
remains then lies on or behind a cycle.

The order in which the transactions and their edges are listed is a parameter of
the peeling.
-/

namespace TransactionalPages

/-- The state of a peeling: how many still wait for each transaction, which transactions are
ready to be taken away, and how many have been. -/
structure Peeling where
  degree : Std.TreeMap TransactionId Nat
  ready : List TransactionId
  taken : Nat

namespace Peeling

/-- Counts one more waiter for each of `targets`. -/
def raise (degree : Std.TreeMap TransactionId Nat) (targets : List TransactionId) :
    Std.TreeMap TransactionId Nat :=
  targets.foldl (fun degree txn => degree.insert txn (degree.getD txn 0 + 1)) degree

/-- The number of waiters of every transaction that somebody waits for. -/
def degrees (nodes : List TransactionId) (waitsFor : TransactionId → List TransactionId) :
    Std.TreeMap TransactionId Nat :=
  nodes.foldl (fun degree txn => raise degree (waitsFor txn)) ∅

def start (nodes : List TransactionId) (waitsFor : TransactionId → List TransactionId) :
    Peeling :=
  let degree := degrees nodes waitsFor
  ⟨degree, nodes.filter fun txn => degree.getD txn 0 = 0, 0⟩

/-- One transaction less waits for `txn`, which is ready when it was the last. -/
def lower (p : Peeling) (txn : TransactionId) : Peeling :=
  let left := p.degree.getD txn 0 - 1
  { p with
    degree := p.degree.insert txn left
    ready := if left = 0 then p.ready ++ [txn] else p.ready }

/-- Takes away at most `n` ready transactions, first come, first served. -/
def run (waitsFor : TransactionId → List TransactionId) : Nat → Peeling → Peeling
  | 0, p => p
  | n + 1, p =>
    match p.ready with
    | [] => p
    | txn :: rest =>
      run waitsFor n
        ((waitsFor txn).foldl lower { p with ready := rest, taken := p.taken + 1 })

/-- Whether a peeling leaves some of the transactions behind. -/
def leavesRest (nodes : List TransactionId) (waitsFor : TransactionId → List TransactionId) :
    Bool :=
  (run waitsFor nodes.length (start nodes waitsFor)).taken < nodes.length

end Peeling

structure WaitForGraph where
  edges : Std.TreeMap TransactionId (Std.TreeSet TransactionId)
  deriving Inhabited

namespace WaitForGraph

def empty : WaitForGraph := ⟨∅⟩

def targets (g : WaitForGraph) (waiter : TransactionId) : Std.TreeSet TransactionId :=
  g.edges.getD waiter ∅

/-- The transactions that `waiter` waits for, in increasing order. -/
def waitsFor (g : WaitForGraph) (waiter : TransactionId) : List TransactionId :=
  (g.targets waiter).toList

/-- No transaction waits for itself. -/
def addEdge (g : WaitForGraph) (waiter holder : TransactionId) : WaitForGraph :=
  if waiter = holder then g else ⟨g.edges.insert waiter ((g.targets waiter).insert holder)⟩

/-- Drops every edge that leads away from a transaction. -/
def clear (g : WaitForGraph) (txn : TransactionId) : WaitForGraph := ⟨g.edges.erase txn⟩

def edgeCount (g : WaitForGraph) : Nat :=
  g.edges.foldl (fun n _ holders => n + holders.size) 0

def isEmpty (g : WaitForGraph) : Bool := g.edgeCount = 0

/-- The transactions at either end of an edge, in increasing order. -/
def nodes (g : WaitForGraph) : List TransactionId :=
  (g.edges.foldl (fun found waiter holders =>
    holders.foldl (fun found holder => found.insert holder) (found.insert waiter))
    (∅ : Std.TreeSet TransactionId)).toList

def hasCycle (g : WaitForGraph) : Bool := Peeling.leavesRest g.nodes g.waitsFor

/-- Replaces the edges of a waiting transaction by edges to the present holders. -/
def refresh (g : WaitForGraph) (waiter : TransactionId) (holders : List TransactionId) :
    WaitForGraph :=
  holders.foldl (fun g holder => g.addEdge waiter holder) (g.clear waiter)

/-- Records a wait and says whether it closes a cycle. If it does, the waiting transaction is
the victim and keeps no edges. -/
def block (g : WaitForGraph) (waiter : TransactionId) (holders : List TransactionId) :
    WaitForGraph × Bool :=
  let waiting := g.refresh waiter holders
  if waiting.hasCycle then (waiting.clear waiter, true) else (waiting, false)

end WaitForGraph

end TransactionalPages
