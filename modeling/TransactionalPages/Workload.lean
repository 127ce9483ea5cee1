import TransactionalPages.Choice
import TransactionalPages.Row
import TransactionalPages.Session

/-!
# Workloads

A workload transaction inserts rows and reads pages of one heap table as a plan
tells it, and then commits. It runs alone in its session, so it never waits.
-/

namespace TransactionalPages

inductive WorkloadError where
  | pool (cause : PoolError)
  | storage (cause : StorageError)
  /-- A lock was refused although nobody else runs. -/
  | stalled
  | fault (cause : Fault)
  deriving DecidableEq, Repr

namespace WorkloadError

def message : WorkloadError → String
  | pool cause => cause.message
  | storage cause => cause.message
  | stalled => "Stalled on a lock"
  | fault cause => "Fault: " ++ cause.message

/-- The messages of what lies behind an error, nearest first. -/
def causes : WorkloadError → List String
  | pool cause => cause.causes
  | storage cause => cause.causes
  | stalled => []
  | fault _ => []

/-- Deadlock victims and pools full of dirty pages may fare better later. -/
def isRetryable : WorkloadError → Bool
  | pool cause => cause.isRetryable
  | _ => false

def fault? : WorkloadError → Option Fault
  | pool cause => cause.fault?
  | storage cause => cause.fault?
  | stalled => none
  | fault cause => some cause

end WorkloadError

namespace Workload

/-- A session with the sequence number of the next row and the source of choices. -/
structure State (σ : Type) where
  session : Session
  seq : UInt64
  source : σ

variable {σ : Type}

def submit (st : State σ) (txn : TransactionId) (op : Operation) :
    State σ × Except WorkloadError Answer :=
  let (session, result) := st.session.submit txn op
  ({ st with session := session },
    match result with
    | some (.ok answer) => .ok answer
    | some (.error e) => .error (.pool e)
    | none => .error .stalled)

/-- A row of the worker with a payload of 8 to 63 bytes. It uses up a sequence number; the last
of these cannot be used up. -/
def nextRow (choice : Choice σ) (worker : UInt32) (st : State σ) : State σ × Except Fault Row :=
  let (size, source) := choice.draw st.source 8 64
  let (payload, source) := choice.drawMany 0 256 size source
  let drawn := { st with source := source }
  if st.seq + 1 = 0 then (drawn, .error .countExhausted)
  else ({ drawn with seq := st.seq + 1 },
    .ok ⟨worker, st.seq, (payload.map UInt8.ofNat).toArray⟩)

def insertRow (choice : Choice σ) (table : TableId) (worker : UInt32) (txn : TransactionId)
    (st : State σ) : State σ × Except WorkloadError Unit :=
  match nextRow choice worker st with
  | (st, .error fault) => (st, .error (.fault fault))
  | (st, .ok row) =>
    let (st, result) := submit st txn (.mutate table (.insert row.encode))
    (st, result.map fun _ => ())

/-- Reads some page of the table, if it has any. -/
def readPage (choice : Choice σ) (table : TableId) (store : StoreRef) (txn : TransactionId)
    (st : State σ) : State σ × Except WorkloadError Unit :=
  let (pool, counted) := st.session.pool.countPages store
  let st := { st with session := { st.session with pool := pool } }
  match counted with
  | .error e => (st, .error (.storage e))
  | .ok count =>
    if count = 0 then (st, .ok ())
    else
      let (index, source) := choice.draw st.source 0 count.toNat
      let (st, result) := submit { st with source := source } txn
        (.fetch ⟨table, UInt32.ofNat index⟩ .readOnly)
      (st, result.map fun _ => ())

/-- Follows a plan, where `true` stands for an insert, up to the first error. -/
def follow (choice : Choice σ) (table : TableId) (store : StoreRef) (worker : UInt32)
    (txn : TransactionId) : List Bool → State σ → State σ × Except WorkloadError Unit
  | [], st => (st, .ok ())
  | inserting :: rest, st =>
    let (st, result) :=
      if inserting then insertRow choice table worker txn st
      else readPage choice table store txn st
    match result with
    | .error e => (st, .error e)
    | .ok () => follow choice table store worker txn rest st

/-- Ends a transaction by a commit if it went well and by an abort if not. -/
def conclude (txn : TransactionId) (st : State σ) (result : Except WorkloadError Unit) :
    State σ × Except WorkloadError Unit :=
  let (pool, ended) :=
    match result with
    | .ok () => st.session.pool.commitHandle txn
    | .error _ => st.session.pool.dropHandle txn
  let st := { st with session := { st.session with pool := pool } }
  match ended, result with
  | .error e, _ => (st, .error (.pool e))
  | .ok (), result => (st, result)

/-- Runs one transaction and answers with the number of rows that it inserted. -/
def runTransaction (choice : Choice σ) (table : TableId) (store : StoreRef) (worker : UInt32)
    (plan : List Bool) (st : State σ) : State σ × Except WorkloadError Nat :=
  let (session, txn) := st.session.begin
  let (st, result) := follow choice table store worker txn plan { st with session := session }
  let (st, result) := conclude txn st result
  (st, result.map fun _ => plan.count true)

end Workload

end TransactionalPages
