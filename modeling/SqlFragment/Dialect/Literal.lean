import SqlFragment.Binary64.Text
import SqlFragment.Calendar.Text
import SqlFragment.Column.Type
import SqlFragment.Dialect.Basic
import SqlFragment.Text.Quoted
import SqlFragment.Value

/-!
# Literals

The text of a value, as the type of the column asks for that it is compared with or stored in. Text
goes bare only where it reads as a value of a number or boolean column; numbers and booleans are
quoted for text columns.
-/

namespace SqlFragment

open Text

/-- The boolean that a spelling stands for, without its case and its blanks at either end. -/
def booleanOfText? (s : List Char) : Option Bool :=
  let word := String.ofList ((trim s).map Char.toLower)
  if ["t", "true", "1", "y", "yes", "on"].contains word then some true
  else if ["f", "false", "0", "n", "no", "off"].contains word then some false
  else none

namespace Dialect

def boolean : Dialect → Bool → String
  | postgres, true => "TRUE"
  | postgres, false => "FALSE"
  | sqlite, true => "1"
  | sqlite, false => "0"

def string (s : String) : String := quoted '\'' s

/-- SQLite has no literal for "not a number"; its numbers out of range overflow to infinity. -/
def float (d : Dialect) (x : Binary64) : String :=
  if x.isNaN then
    match d with
    | postgres => "'NaN'"
    | sqlite => "NULL"
  else if x.isInfinite then
    match d, x.negative with
    | postgres, false => "'Infinity'"
    | postgres, true => "'-Infinity'"
    | sqlite, false => "9e999"
    | sqlite, true => "-9e999"
  else x.markedText

def date (d : Date) : String := string d.text

def timestamp (t : Timestamp) : String := string (t.text ' ')

def integer (i : Int64) : String := String.ofList (Numeral.ofInt i.toInt)

def textLiteral (d : Dialect) (target : Option ColumnType) (s : String) : String :=
  let trimmed := trim s.toList
  match target with
  | some .integer => ((Numeral.readInt64? trimmed).map integer).getD (string s)
  | some .float | some .decimal =>
    match Binary64.read? trimmed with
    | some x => if x.isFinite then String.ofList trimmed else string s
    | none => string s
  | some .boolean => ((booleanOfText? s.toList).map d.boolean).getD (string s)
  | _ => string s

/-- A value for a column of the given type; without a type the value alone decides. -/
def literal (d : Dialect) (target : Option ColumnType) : Value → String
  | .null => "NULL"
  | .boolean b =>
    match target with
    | some .integer => if b then "1" else "0"
    | some .text => string (if b then "t" else "f")
    | _ => d.boolean b
  | .integer i =>
    match target with
    | some .boolean => d.boolean (i != 0)
    | some .text => string (integer i)
    | _ => integer i
  | .float x =>
    match target with
    | some .text => string x.plainText
    | _ => d.float x
  | .text s => d.textLiteral target s
  | .date day => date day
  | .timestamp t =>
    match target with
    | some .date => date t.date
    | _ => timestamp t

end Dialect

end SqlFragment
