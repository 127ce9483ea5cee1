import TransactionalPages.Config
import TransactionalPages.Store.Error

/-!
# Pool errors

Why a pool does not do what it is asked for. None of these is retried inside the
pool; the transaction that meets one is expected to abort.
-/

namespace TransactionalPages

inductive PoolError where
  /-- Waiting for the page would close a cycle of waiting transactions. -/
  | deadlock (txn : TransactionId) (page : PageId)
  /-- The cache is full of dirty pages. -/
  | evictionExhausted (capacity : Nat)
  | unknownTable (table : TableId)
  | config (cause : ConfigError)
  | storage (cause : StorageError)
  | fault (cause : Fault)
  deriving DecidableEq, Repr

namespace PoolError

def message : PoolError → String
  | deadlock txn page =>
    "Deadlock: " ++ toString txn ++ " aborted while waiting for " ++ toString page
  | evictionExhausted capacity =>
    "Cannot evict: all " ++ toString capacity ++ " cached pages are dirty"
  | unknownTable table => "Unknown table: " ++ toString table
  | config cause => "Invalid configuration: " ++ cause.message
  | storage cause => "Storage error: " ++ cause.message
  | fault cause => "Fault: " ++ cause.message

/-- The messages of what lies behind an error, nearest first. -/
def causes : PoolError → List String
  | config cause => [cause.message]
  | storage cause => cause.message :: cause.causes
  | _ => []

def isDeadlock : PoolError → Bool
  | deadlock .. => true
  | _ => false

def fault? : PoolError → Option Fault
  | storage cause => cause.fault?
  | fault cause => some cause
  | _ => none

def isFault (e : PoolError) : Bool := e.fault?.isSome

/-- Whether the same transaction may succeed when it is run again. -/
def isRetryable : PoolError → Bool
  | deadlock .. => true
  | evictionExhausted _ => true
  | _ => false

end PoolError

end TransactionalPages
