import SqlFragment.Expr.Basic
import SqlFragment.Lookup.Provider

/-!
# The schema cache

The first lookup of a table asks the provider for all its columns; every later lookup is answered
from memory. A slot for the table is put up before the provider is asked, filled when it answers and
taken down again when it fails, so a failed lookup is tried anew the next time. Each lookup leaves
its events in a log, which a subscriber reads line by line.
-/

namespace SqlFragment

/-- The columns of a table by name; of columns with one name the last counts. -/
abbrev ColumnMap := Keyed Column

def ColumnMap.ofList (columns : List Column) : ColumnMap :=
  columns.foldl (fun m c => m.insert c.name c) ∅

inductive Event where
  | hit (table : String)
  | miss (table : String)
  | stored (table : String) (columns : Nat)
  | failed (table : String) (error : LookupError)
  deriving DecidableEq

inductive LogLevel where
  | trace
  | debug
  deriving DecidableEq

/-- An event as a subscriber gets it. All have a table, and each kind its own further fields. -/
structure LogLine where
  level : LogLevel
  message : String
  table : String
  columns : Option Nat
  error : Option String
  deriving DecidableEq

def Event.line : Event → LogLine
  | hit table => ⟨.trace, "schema cache hit", table, none, none⟩
  | miss table => ⟨.debug, "schema cache miss, fetching columns", table, none, none⟩
  | stored table columns => ⟨.debug, "cached table columns", table, some columns, none⟩
  | failed table error => ⟨.debug, "column fetch failed", table, none, some error.message⟩

/-- A cache over the state of a provider. A slot without columns belongs to a lookup under way. -/
structure SchemaCache (σ : Type) where
  source : σ
  slots : Keyed (Option ColumnMap)
  /-- The oldest event first. -/
  events : List Event
  deriving DecidableEq

namespace SchemaCache

variable {σ : Type}

def fresh (source : σ) : SchemaCache σ := ⟨source, ∅, []⟩

def record (e : Event) (c : SchemaCache σ) : SchemaCache σ := { c with events := c.events ++ [e] }

def register (table : String) (c : SchemaCache σ) : SchemaCache σ :=
  if c.slots.contains table then c else { c with slots := c.slots.insert table none }

def fill (table : String) (columns : ColumnMap) (c : SchemaCache σ) : SchemaCache σ :=
  { c with slots := c.slots.insert table (some columns) }

def unregister (table : String) (c : SchemaCache σ) : SchemaCache σ :=
  { c with slots := c.slots.erase table }

def held? (c : SchemaCache σ) (table : String) : Option ColumnMap := (c.slots.get? table).join

/-- Asks the provider, and fills or takes down the slot of the table. -/
def fetch (provider : Provider σ) (table : String) (c : SchemaCache σ) :
    Except LookupError ColumnMap × SchemaCache σ :=
  match (provider table).run.run c.source with
  | (.ok listed, source) =>
    let columns := ColumnMap.ofList listed
    (.ok columns,
      ({ c with source }.record (.stored table columns.size)).fill table columns)
  | (.error e, source) =>
    (.error e, ({ c with source }.record (.failed table e)).unregister table)

def columnsFor (provider : Provider σ) (table : String) :
    Effect (SchemaCache σ) LookupError ColumnMap := fun c =>
  let c := c.register table
  match c.held? table with
  | some columns => (.ok columns, c.record (.hit table))
  | none => (c.record (.miss table)).fetch provider table

/-- The column that the attribute names, or nothing if its table has no such column. -/
def columnFor (provider : Provider σ) (a : Attribute) :
    Effect (SchemaCache σ) LookupError (Option Column) := do
  let columns ← columnsFor provider a.table
  return columns.get? a.column

def isCached (c : SchemaCache σ) (table : String) : Bool := (c.held? table).isSome

def log (c : SchemaCache σ) : List LogLine := c.events.map Event.line

def cachedTables (c : SchemaCache σ) : Nat := c.slots.entries.countP fun entry => entry.2.isSome

def summary (c : SchemaCache σ) : String :=
  "SchemaCache \x7b cached_tables: " ++ toString c.cachedTables ++ ", .. \x7d"

end SchemaCache

end SqlFragment
