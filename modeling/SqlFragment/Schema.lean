import SqlFragment.Column.Basic
import SqlFragment.Keyed

/-!
# Tables and schemas

A table is a list of columns with different names; adding a column under a name that is there
replaces that column in its place. A schema holds the last table added under each name.
-/

namespace SqlFragment

structure Table where
  name : String
  columns : List Column
  deriving DecidableEq

/-- Replaces the first column of the same name, else adds the column at the end. -/
def replaceColumn (c : Column) : List Column → List Column
  | [] => [c]
  | d :: rest => if d.name = c.name then c :: rest else d :: replaceColumn c rest

namespace Table

def empty (name : String) : Table := ⟨name, []⟩

def rename (t : Table) (name : String) : Table := { t with name }

def addColumn (t : Table) (c : Column) : Table := { t with columns := replaceColumn c t.columns }

def ofColumns (name : String) (columns : List Column) : Table :=
  columns.foldl addColumn (empty name)

def column? (t : Table) (name : String) : Option Column := t.columns.find? (·.name == name)

end Table

structure Schema where
  tables : Keyed Table
  deriving DecidableEq

namespace Schema

def empty : Schema := ⟨∅⟩

def addTable (s : Schema) (t : Table) : Schema := ⟨s.tables.insert t.name t⟩

def ofTables (tables : List Table) : Schema := tables.foldl addTable empty

def table? (s : Schema) (name : String) : Option Table := s.tables.get? name

end Schema

end SqlFragment
