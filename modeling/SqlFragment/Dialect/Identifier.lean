import SqlFragment.Dialect.Basic
import SqlFragment.Text.Quoted

namespace SqlFragment

def isWordStart (c : Char) : Bool := c.isLower || c == '_'

def isWordPart (c : Char) : Bool := c.isLower || c.isDigit || c == '_'

def isPlainWord : List Char → Bool
  | [] => false
  | c :: rest => isWordStart c && rest.all isWordPart

def isBareEverywhere (name : String) : Bool :=
  isPlainWord name.toList && !Dialect.postgres.keywords.contains name &&
    !Dialect.sqlite.keywords.contains name

namespace Dialect

def isBare (d : Dialect) (name : String) : Bool :=
  isPlainWord name.toList && !d.keywords.contains name

def identifier (d : Dialect) (name : String) : String :=
  if d.isBare name then name else Text.quoted '"' name

def qualified (d : Dialect) (table column : String) : String :=
  d.identifier table ++ "." ++ d.identifier column

end Dialect

end SqlFragment
