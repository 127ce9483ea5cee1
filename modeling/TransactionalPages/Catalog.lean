import TransactionalPages.Fault
import TransactionalPages.Identifier
import Std.Data.TreeMap

/-!
# Catalogs

A catalog files tables under their identifiers and knows each by one name.
Registering a table replaces the one with its identifier and the one with its
name. The identifiers that a catalog hands out come from a counter of its own.
-/

namespace TransactionalPages

structure CatalogEntry (α : Type) where
  name : String
  file : α

structure Catalog (α : Type) where
  tables : Std.TreeMap TableId (CatalogEntry α)
  names : Std.TreeMap String TableId
  issued : UInt32

namespace Catalog

variable {α : Type}

def empty : Catalog α := ⟨∅, ∅, 0⟩

instance : Inhabited (Catalog α) := ⟨empty⟩

/-- Counts up and hands out the new count. The count after the largest is zero and is not handed
out. -/
def nextTableId (c : Catalog α) : Catalog α × Except Fault TableId :=
  ({ c with issued := c.issued + 1 },
    if c.issued + 1 = 0 then .error .countExhausted else .ok ⟨c.issued + 1⟩)

def file? (c : Catalog α) (table : TableId) : Option α := c.tables[table]?.map CatalogEntry.file

def name? (c : Catalog α) (table : TableId) : Option String :=
  c.tables[table]?.map CatalogEntry.name

def id? (c : Catalog α) (name : String) : Option TableId := c.names[name]?

/-- Takes a name for a table; another table of that name goes. -/
def takeName (c : Catalog α) (name : String) (table : TableId) : Catalog α :=
  let taken := { c with names := c.names.insert name table }
  match c.id? name with
  | some previous =>
    if previous = table then taken else { taken with tables := taken.tables.erase previous }
  | none => taken

/-- Files a table under its identifier; another name of that table goes. -/
def fileUnder (c : Catalog α) (table : TableId) (name : String) (file : α) : Catalog α :=
  let filed := { c with tables := c.tables.insert table ⟨name, file⟩ }
  match c.name? table with
  | some old => if old = name then filed else { filed with names := filed.names.erase old }
  | none => filed

def add (c : Catalog α) (name : String) (table : TableId) (file : α) : Catalog α :=
  (c.takeName name table).fileUnder table name file

def remove (c : Catalog α) (table : TableId) : Catalog α × Option α :=
  match c.tables[table]? with
  | none => (c, none)
  | some entry =>
    ({ c with tables := c.tables.erase table, names := c.names.erase entry.name },
      some entry.file)

/-- The identifiers of the tables, in increasing order. -/
def tableIds (c : Catalog α) : List TableId := c.tables.keys

def size (c : Catalog α) : Nat := c.tables.size

def isEmpty (c : Catalog α) : Bool := c.tables.isEmpty

end Catalog

end TransactionalPages
