import SqlFragment.Document.Reader
import SqlFragment.Expr.Render

namespace SqlFragment

open Document

def encodeOption {α : Type} (encode : α → Document) : Option α → Document
  | none => null
  | some a => encode a

namespace Attribute

def encode (a : Attribute) : Document :=
  object [("column", string a.column), ("table", string a.table)]

def ofFields (fields : List (String × Document)) : Except DecodeError Attribute := do
  let column ← field? fields "column" readString
  let table ← field? fields "table" readString
  return ⟨← required "table" table, ← required "column" column⟩

def ofItems (items : List Document) : Except DecodeError Attribute := do
  let (table, items) ← nextItem readString items
  let (column, items) ← nextItem readString items
  noMoreItems items
  return ⟨table, column⟩

def decode : Reader Attribute := readRecord ofFields ofItems

end Attribute

namespace TableRef

def encode (t : TableRef) : Document := object [("name", string t.name)]

def ofFields (fields : List (String × Document)) : Except DecodeError TableRef := do
  return ⟨← required "name" (← field? fields "name" readString)⟩

def ofItems (items : List Document) : Except DecodeError TableRef := do
  let (name, items) ← nextItem readString items
  noMoreItems items
  return ⟨name⟩

def decode : Reader TableRef := readRecord ofFields ofItems

end TableRef

namespace Operator

def encode (op : Operator) : Document := string op.name

def decode : Reader Operator := readChoice all name

end Operator

namespace Dialect

def encode (d : Dialect) : Document := .string d.name

def decode : Reader Dialect := readChoice all name

end Dialect

namespace Settings

def encode (s : Settings) : Document := object [("dialect", s.dialect.encode)]

def ofFields (fields : List (String × Document)) : Except DecodeError Settings := do
  return ⟨← required "dialect" (← field? fields "dialect" Dialect.decode)⟩

def ofItems (items : List Document) : Except DecodeError Settings := do
  let (dialect, items) ← nextItem Dialect.decode items
  noMoreItems items
  return ⟨dialect⟩

def decode : Reader Settings := readRecord ofFields ofItems

end Settings

namespace ColumnType

def encode (t : ColumnType) : Document := string t.name

def decode : Reader ColumnType := readChoice all name

end ColumnType

namespace Column

def encode (c : Column) : Document :=
  object [("column_type", c.type.encode), ("declared_type", encodeOption string c.declaredType),
    ("default", encodeOption string c.defaultText), ("name", string c.name),
    ("nillable", bool c.nullable)]

def ofFields (fields : List (String × Document)) : Except DecodeError Column := do
  let type ← field? fields "column_type" ColumnType.decode
  let declaredType ← field? fields "declared_type" (readOptional readString)
  let defaultText ← field? fields "default" (readOptional readString)
  let name ← field? fields "name" readString
  let nullable ← field? fields "nillable" readBool
  return ⟨← required "name" name, ← required "column_type" type, declaredType.join,
    ← required "nillable" nullable, defaultText.join⟩

def ofItems (items : List Document) : Except DecodeError Column := do
  let (name, items) ← nextItem readString items
  let (type, items) ← nextItem ColumnType.decode items
  let (declaredType, items) ← nextItem (readOptional readString) items
  let (nullable, items) ← nextItem readBool items
  let (defaultText, items) ← nextItem (readOptional readString) items
  noMoreItems items
  return ⟨name, type, declaredType, nullable, defaultText⟩

def decode : Reader Column := readRecord ofFields ofItems

end Column

end SqlFragment
