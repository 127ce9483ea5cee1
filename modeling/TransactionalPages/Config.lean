/-!
# Pool configuration

A configuration is fixed when a pool is made. Its page size is at most what a
16-bit offset can address.
-/

namespace TransactionalPages

structure Config where
  /-- The largest number of cached pages. -/
  capacity : Nat
  /-- The number of bytes in a page. -/
  pageSize : Nat
  /-- The longest sleep, in milliseconds, before a refused lock is asked for again. -/
  lockRetryMs : Nat
  deriving DecidableEq, Repr

inductive ConfigError where
  | zeroCapacity
  | pageSizeOutOfRange (bytes : Nat)
  deriving DecidableEq, Repr

namespace Config

def minPageSize : Nat := 64
def maxPageSize : Nat := 65535

instance : Inhabited Config := ⟨⟨50, 4096, 10⟩⟩

/-- The default configuration with another capacity and page size. -/
def sized (capacity pageSize : Nat) : Config :=
  { (default : Config) with capacity := capacity, pageSize := pageSize }

/-- A capacity of zero is reported before a bad page size. -/
def validate (c : Config) : Except ConfigError Unit :=
  if c.capacity = 0 then .error .zeroCapacity
  else if c.pageSize < minPageSize ∨ maxPageSize < c.pageSize then
    .error (.pageSizeOutOfRange c.pageSize)
  else .ok ()

/-- A wait is never shorter than one millisecond. -/
def retryIntervalMs (c : Config) : Nat := max c.lockRetryMs 1

end Config

namespace ConfigError

def message : ConfigError → String
  | zeroCapacity => "Buffer pool capacity must be at least 1 page"
  | pageSizeOutOfRange bytes =>
    "Page size " ++ toString bytes ++ " is out of range (" ++ toString Config.minPageSize ++
      "..=" ++ toString Config.maxPageSize ++ " bytes)"

end ConfigError

end TransactionalPages
