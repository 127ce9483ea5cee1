import TransactionalPages.CommandLine.Options
import TransactionalPages.Workload

/-!
# Running workloads from the command line

The command line runs workers one after another on a new heap table in a file,
and then counts the rows that it finds there. A transaction that fails for a
passing reason is run again with a new plan, a limited number of times. A fault
stops the run.
-/

namespace TransactionalPages.CommandLine

structure Report where
  committed : Nat
  aborted : Nat
  rows : Nat
  onDisk : Nat
  pages : Nat
  deriving DecidableEq, Repr

/-- An error with what lies behind it, outermost first. -/
structure Failure where
  message : String
  causes : List String
  deriving DecidableEq, Repr

inductive Outcome where
  | failed (failure : Failure)
  | finished (report : Report)
  /-- The rows found are not as many as were committed. -/
  | mismatch (report : Report)
  /-- Nothing is reported after a fault. -/
  | stopped (fault : Fault)
  deriving DecidableEq, Repr

namespace Failure

def ofWorkload (e : WorkloadError) : Failure := ⟨e.message, e.causes⟩

def ofPool (e : PoolError) : Failure := ⟨e.message, e.causes⟩

/-- Puts an error behind a message that says what was going on. -/
def inContext (context : String) (f : Failure) : Failure := ⟨context, f.message :: f.causes⟩

def numbered : Nat → List String → List String
  | _, [] => []
  | n, cause :: rest => ("    " ++ toString n ++ ": " ++ cause) :: numbered (n + 1) rest

/-- The lines that report a failure. Causes are numbered if there are several. -/
def lines (f : Failure) : List String :=
  ("Error: " ++ f.message) ::
    match f.causes with
    | [] => []
    | [cause] => ["", "Caused by:", "    " ++ cause]
    | causes => "" :: "Caused by:" :: numbered 0 causes

end Failure

namespace Report

def lines (r : Report) : List String :=
  ["Committed transactions: " ++ toString r.committed,
    "Aborted attempts:       " ++ toString r.aborted,
    "Rows committed:         " ++ toString r.rows,
    "Rows on disk:           " ++ toString r.onDisk,
    "Pages:                  " ++ toString r.pages]

/-- What is said when the rows found are not those committed. -/
def mismatch (r : Report) : Failure :=
  ⟨"Row count mismatch: committed " ++ toString r.rows ++ " but found " ++ toString r.onDisk, []⟩

end Report

namespace Outcome

def exitCode : Outcome → UInt32
  | failed _ => 1
  | finished _ => 0
  | mismatch _ => 1
  | stopped _ => 101

/-- How a run ends if a worker ends with an error. A worker that stops at a fault is reported by
name if it is the only one; several stop at the same fault and take the run with them. -/
def ofWorker (workers : Nat) (e : WorkloadError) : Outcome :=
  match e.fault? with
  | none => failed (.ofWorkload e)
  | some fault => if workers = 1 then failed ⟨"Worker thread panicked", []⟩ else stopped fault

end Outcome

/-- What has been done so far, with the state that the workers share. -/
structure Tally (σ : Type) where
  state : Workload.State σ
  committed : Nat
  aborted : Nat
  rows : Nat

variable {σ : Type}

/-- Six operations in ten are inserts. A plan takes a byte for each operation. -/
def drawPlan (choice : Choice σ) (ops : Nat) (s : σ) : Except Fault (List Bool × σ) :=
  if Limit.block < ops then .error .sizeOutOfRange
  else
    let (draws, s) := choice.drawMany 0 10 ops s
    .ok (draws.map fun n => n < 6, s)

/-- How often a transaction is run again. -/
def maxRetries : Nat := 99

def runUntilDone (choice : Choice σ) (table : TableId) (store : StoreRef) (worker : UInt32)
    (ops : Nat) : (retries : Nat) → Tally σ → Tally σ × Except WorkloadError Unit
  | retries, t =>
    match drawPlan choice ops t.state.source with
    | .error fault => (t, .error (.fault fault))
    | .ok (plan, source) =>
      let (state, result) :=
        Workload.runTransaction choice table store worker plan { t.state with source := source }
      let t := { t with state := state }
      match result, retries with
      | .ok inserted, _ =>
        ({ t with committed := t.committed + 1, rows := t.rows + inserted }, .ok ())
      | .error e, 0 => (t, .error e)
      | .error e, retries + 1 =>
        if e.isRetryable then
          runUntilDone choice table store worker ops retries { t with aborted := t.aborted + 1 }
        else (t, .error e)

/-- Runs one worker's transactions, up to the first that does not get through. -/
def runTransactions (choice : Choice σ) (table : TableId) (store : StoreRef) (worker : UInt32)
    (ops : Nat) : (left : Nat) → Tally σ → Tally σ × Except WorkloadError Unit
  | 0, t => (t, .ok ())
  | left + 1, t =>
    match runUntilDone choice table store worker ops maxRetries t with
    | (t, .error e) => (t, .error e)
    | (t, .ok ()) => runTransactions choice table store worker ops left t

/-- Runs `left` workers, each of which numbers its rows from zero. -/
def runWorkers (choice : Choice σ) (table : TableId) (store : StoreRef) (o : Options) :
    (left : Nat) → (worker : UInt32) → Tally σ → Tally σ × Except WorkloadError Unit
  | 0, _, t => (t, .ok ())
  | left + 1, worker, t =>
    let t := { t with state := { t.state with seq := 0 } }
    match runTransactions choice table store worker o.ops o.transactions t with
    | (t, .error e) => (t, .error e)
    | (t, .ok ()) => runWorkers choice table store o left (worker + 1) t

/-- Reads all tuples of a table in a transaction of its own. -/
def readRows (table : TableId) (store : StoreRef) (s : Session) :
    Session × Except Failure HeapTable.Rows :=
  let (s, txn) := s.begin
  let (s, scanned) := s.submit txn (.scan table store)
  match scanned with
  | some (.ok (.rows rows)) =>
    let (pool, ended) := s.pool.commitHandle txn
    ({ s with pool := pool }, (ended.mapError Failure.ofPool).map fun _ => rows)
  | some (.error e) => (s, .error ((Failure.ofPool e).inContext "Failed to scan table"))
  | _ => (s, .error (.ofWorkload .stalled))

/-- The first tuple that is not a row. -/
def firstCorrupt? (rows : HeapTable.Rows) : Option (RecordId × RowError) :=
  rows.findSome? fun r =>
    match Row.decode r.2 with
    | .ok _ => none
    | .error e => some (r.1, e)

def corruptRow (record : RecordId) (e : RowError) : Failure :=
  ⟨"Corrupt row at " ++ toString record.page ++ " slot " ++ toString record.slot, [e.message]⟩

/-- Counts what is in the table after all workers are done. -/
def takeStock (table : TableId) (store : StoreRef) (t : Tally σ) : Session × Outcome :=
  match readRows table store t.state.session with
  | (s, .error f) => (s, .failed f)
  | (s, .ok rows) =>
    match firstCorrupt? rows with
    | some (record, e) => (s, .failed (corruptRow record e))
    | none =>
      let (pool, counted) := s.pool.countPages store
      let s := { s with pool := pool }
      match counted with
      | .error e => (s, .failed ⟨e.message, e.causes⟩)
      | .ok count =>
        let report := ⟨t.committed, t.aborted, t.rows, rows.length, count.toNat⟩
        (s, if rows.length = t.rows then .finished report else .mismatch report)

/-- The bytes of a table's file at the end of a run. -/
def fileOf (s : Session) (store : StoreRef) : ByteFile :=
  match (s.pool.store store).medium with
  | .file f => f.file
  | .memory _ => .empty

/-- A session with one new table on an empty file. -/
def openTable (o : Options) : Except PoolError (Session × TableId × StoreRef) :=
  match Session.create (Config.sized o.capacity o.pageSize) with
  | .error e => .error e
  | .ok s =>
    match s.pool.catalog.nextTableId with
    | (_, .error fault) => .error (.fault fault)
    | (catalog, .ok table) =>
      let s := { s with pool := { s.pool with catalog := catalog } }
      let s := s.addTable "rows" .heap (.file (.create table o.pageSize))
      match s.storeOf? table with
      | none => .error (.unknownTable table)
      | some store => .ok (s, table, store)

/-- Runs the workload that the options ask for. Answers with its outcome and with the table that
it filled, if it came to that. -/
def run (choice : Choice σ) (source : σ) (o : Options) :
    Outcome × Option (TableId × ByteFile) :=
  match openTable o with
  | .error (.config e) =>
    (.failed ((⟨e.message, []⟩ : Failure).inContext "Invalid buffer pool configuration"), none)
  | .error (.fault fault) => (.stopped fault, none)
  | .error e => (.failed (.ofPool e), none)
  | .ok (s, table, store) =>
    if Limit.workers < o.threads then (.stopped .sizeOutOfRange, some (table, fileOf s store))
    else
      let start : Tally σ := ⟨⟨s, 0, source⟩, 0, 0, 0⟩
      match runWorkers choice table store o o.threads 0 start with
      | (t, .error e) =>
        (.ofWorker o.threads e, some (table, fileOf t.state.session store))
      | (t, .ok ()) =>
        let (s, outcome) := takeStock table store t
        (outcome, some (table, fileOf s store))

end TransactionalPages.CommandLine
