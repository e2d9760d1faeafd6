import SqlFragment.Schema

/-!
# Column lookups

Where the columns of a table come from. A provider may have a state of its own, which each call can
read and change, whether the call fails or not.
-/

namespace SqlFragment

/-- A computation that works on a state and can fail; what it did to the state before it failed
stays. -/
abbrev Effect (σ ε α : Type) := ExceptT ε (StateM σ) α

inductive LookupError where
  | unknownTable (table : String)
  | provider (table message : String)
  deriving DecidableEq

def LookupError.message : LookupError → String
  | unknownTable table => "Unknown table: " ++ table
  | provider table message => "Metadata provider failed for table '" ++ table ++ "': " ++ message

abbrev Provider (σ : Type) := String → Effect σ LookupError (List Column)

namespace Schema

def listColumns (s : Schema) (table : String) : Except LookupError (List Column) :=
  match s.table? table with
  | some t => .ok t.columns
  | none => .error (.unknownTable table)

def provider : Provider Schema := fun table s => (s.listColumns table, s)

end Schema

end SqlFragment
