import SqlFragment.Text.Blank

/-!
# Column types

The types of columns, as far as the writing of literals tells them apart, and the type that a
declaration stands for. A declaration counts without its case, its blanks at either end and whatever
follows its first parenthesis: a few names stand for themselves, then beginnings and parts of the
name decide, in this order.
-/

namespace SqlFragment

inductive ColumnType where
  | integer | float | decimal | text | boolean | date | timestamp | time | binary | json | other
  deriving DecidableEq

namespace ColumnType

def all : List ColumnType :=
  [integer, float, decimal, text, boolean, date, timestamp, time, binary, json, other]

def name : ColumnType → String
  | integer => "Integer"
  | float => "Float"
  | decimal => "Decimal"
  | text => "Text"
  | boolean => "Boolean"
  | date => "Date"
  | timestamp => "Timestamp"
  | time => "Time"
  | binary => "Binary"
  | json => "Json"
  | other => "Other"

def isTextual : ColumnType → Bool
  | text => true
  | _ => false

/-- Declared names that are a type of their own. -/
def named : List (String × ColumnType) :=
  [("BOOLEAN", boolean), ("BOOL", boolean), ("DATE", date), ("DATETIME", timestamp), ("TIME", time),
    ("TIMETZ", time), ("NUMERIC", decimal), ("DECIMAL", decimal), ("MONEY", decimal),
    ("SERIAL", integer), ("BIGSERIAL", integer), ("SMALLSERIAL", integer), ("JSON", json),
    ("JSONB", json), ("UUID", text), ("CITEXT", text), ("INTERVAL", other)]

/-- Beginnings of a declared name that decide its type. -/
def beginnings : List (String × ColumnType) := [("TIMESTAMP", timestamp), ("TIME ", time)]

/-- Parts of a declared name that decide its type, the first that occurs. -/
def parts : List (String × ColumnType) :=
  [("INT", integer), ("CHAR", text), ("CLOB", text), ("TEXT", text), ("BLOB", binary),
    ("BYTEA", binary), ("BINARY", binary), ("REAL", float), ("FLOA", float), ("DOUB", float)]

def occursIn (part : List Char) : List Char → Bool
  | [] => part.isEmpty
  | c :: rest => part.isPrefixOf (c :: rest) || occursIn part rest

def ofName (name : List Char) : ColumnType :=
  let entry :=
    (named.find? fun e => e.1.toList = name) <|>
    (beginnings.find? fun e => e.1.toList.isPrefixOf name) <|>
    (parts.find? fun e => occursIn e.1.toList name)
  entry.elim other (·.2)

def declaredName (declared : List Char) : List Char :=
  Text.trim (((Text.trim declared).map Char.toUpper).takeWhile (· != '('))

def ofDeclared (declared : String) : ColumnType := ofName (declaredName declared.toList)

end ColumnType

end SqlFragment
