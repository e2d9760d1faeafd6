import SqlFragment.Document.Basic
import SqlFragment.Expr.Build

/-!
# Reading documents

A record is an object with its fields by name, in which unknown names are passed over, or an array
with its fields in order. The fields of an object are read in the order of their names, and only
then is a missing one reported, in the order of the declaration. One of several variants is its bare
name or an object of its name and its content.
-/

namespace SqlFragment

inductive DecodeError where
  | missingField (name : String)
  | unknownVariant (name : String)
  | invalidType
  | invalidValue
  | invalidLength
  /-- A string that does not have the form it should have. -/
  | malformed
  | construction (e : ConstructionError)
  deriving DecidableEq

def DecodeError.message : DecodeError → String
  | missingField name => "missing field `" ++ name ++ "`"
  | unknownVariant name => "unknown variant `" ++ name ++ "`"
  | invalidType => "invalid type"
  | invalidValue => "invalid value"
  | invalidLength => "invalid length"
  | malformed => "other"
  | construction e => e.message

abbrev Reader (α : Type) := Document → Except DecodeError α

namespace Document

variable {α : Type}

/-! ### Scalars -/

def readBool : Reader Bool
  | bool b => .ok b
  | _ => .error .invalidType

def readString : Reader String
  | string s => .ok s
  | _ => .error .invalidType

def readForm (read : List Char → Option α) : Reader α
  | string s => (read s.toList).elim (.error .malformed) .ok
  | _ => .error .invalidType

def readInt64 : Reader Int64
  | integer i => (Numeral.toInt64? i).elim (.error .invalidValue) .ok
  | _ => .error .invalidType

def readFloat : Reader Binary64
  | integer i => .ok (Binary64.ofInt i)
  | float x => .ok x
  | _ => .error .invalidType

def readOptional (read : Reader α) : Reader (Option α)
  | null => .ok none
  | d => some <$> read d

def readAll (read : Reader α) : Reader (List α)
  | array items => items.mapM read
  | _ => .error .invalidType

/-! ### Records -/

def field? (fields : List (String × Document)) (name : String) (read : Reader α) :
    Except DecodeError (Option α) :=
  match fields.lookup name with
  | none => .ok none
  | some d => some <$> read d

def required (name : String) (value : Option α) : Except DecodeError α :=
  value.elim (.error (.missingField name)) .ok

def nextItem (read : Reader α) : List Document → Except DecodeError (α × List Document)
  | [] => .error .invalidLength
  | d :: rest => do return (← read d, rest)

/-- Reads the next field, or takes `fallback` where the array ends. -/
def nextItemOr (fallback : α) (read : Reader α) :
    List Document → Except DecodeError (α × List Document)
  | [] => .ok (fallback, [])
  | d :: rest => do return (← read d, rest)

def noMoreItems : List Document → Except DecodeError Unit
  | [] => .ok ()
  | _ :: _ => .error .invalidLength

/-- Reads an object by its fields or an array by its items. -/
def readRecord (ofFields : List (String × Document) → Except DecodeError α)
    (ofItems : List Document → Except DecodeError α) : Reader α
  | object fields => ofFields fields
  | array items => ofItems items
  | _ => .error .invalidType

/-! ### Variants -/

/-- The name of a variant and its content, if there is any. -/
def readTagged : Reader (String × Option Document)
  | string name => .ok (name, none)
  | object [(name, content)] => .ok (name, some content)
  | object _ => .error .invalidValue
  | _ => .error .invalidType

def contentOf : Option Document → Except DecodeError Document
  | some content => .ok content
  | none => .error .invalidType

/-- A variant without content may have null in its place. -/
def noContent : Option Document → Except DecodeError Unit
  | none => .ok ()
  | some null => .ok ()
  | some _ => .error .invalidType

def variantOf (all : List α) (nameOf : α → String) (name : String) : Except DecodeError α :=
  (all.find? (nameOf · == name)).elim (.error (.unknownVariant name)) .ok

def readChoice (all : List α) (nameOf : α → String) : Reader α := fun d => do
  let (name, content) ← readTagged d
  let a ← variantOf all nameOf name
  noContent content
  return a

end Document

end SqlFragment
