import SqlFragment.Column.Type

namespace SqlFragment

structure Column where
  name : String
  type : ColumnType
  declaredType : Option String
  nullable : Bool
  defaultText : Option String
  deriving DecidableEq

namespace Column

def ofType (name : String) (type : ColumnType) : Column := ⟨name, type, none, true, none⟩

def ofDeclared (name declared : String) : Column :=
  ⟨name, ColumnType.ofDeclared declared, some declared, true, none⟩

def withNullable (c : Column) (nullable : Bool) : Column := { c with nullable }

def withDefault (c : Column) (text : String) : Column := { c with defaultText := some text }

end Column

end SqlFragment
