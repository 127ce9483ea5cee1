import TransactionalPages.Table.Program

/-!
# Detached tables

A detached table hands the pool pages that it made or took away itself. For each
byte of an inserted tuple it makes a page with the position of that byte, filled
with it, which it has neither fetched nor locked. A delete takes the record's
page out of the cache.
-/

namespace TransactionalPages.DetachedTable

/-- Makes a page for each byte and answers with all of them in order. -/
def makePages (table : TableId) (pageSize : Nat) :
    List UInt8 → List PageRef → Program (List PageRef)
  | [], made => .stop (.ok made)
  | b :: rest, made =>
    .make (.clean ⟨table, b.toUInt32⟩ (Array.replicate pageSize b)) fun ref =>
    makePages table pageSize rest (made ++ [ref])

def delete (record : RecordId) : Program (List PageRef) :=
  .fetchOrStop record.page .readWrite fun ref =>
  .discard record.page (.stop (.ok [ref]))

/-- The detached table over a store with pages of the given size. -/
def table (id : TableId) (pageSize : Nat) (store : StoreRef) : Table :=
  ⟨id, store, fun tuple => makePages id pageSize tuple.toList [], delete⟩

end TransactionalPages.DetachedTable
