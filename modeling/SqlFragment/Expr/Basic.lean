import SqlFragment.Value

/-!
# Expressions

Trees of SQL expressions, kept exactly as they were built: nothing is flattened, reordered or
simplified.
-/

namespace SqlFragment

structure Attribute where
  table : String
  column : String
  deriving DecidableEq

structure TableRef where
  name : String
  deriving DecidableEq

def TableRef.column (t : TableRef) (column : String) : Attribute := ⟨t.name, column⟩

inductive Operator where
  | multiply | divide | add | subtract
  deriving DecidableEq

namespace Operator

def all : List Operator := [multiply, divide, add, subtract]

def name : Operator → String
  | multiply => "Multiply"
  | divide => "Divide"
  | add => "Add"
  | subtract => "Subtract"

def symbol : Operator → String
  | multiply => "*"
  | divide => "/"
  | add => "+"
  | subtract => "-"

end Operator

inductive Expr where
  /-- A value; `target` is the column that it is compared with or stored in, and decides its
  quoting. -/
  | literal (value : Value) (target : Option Attribute)
  /-- Text that is already SQL. -/
  | raw (sql : String)
  | column (a : Attribute)
  | arithmetic (op : Operator) (left right : Expr)
  | call (name : String) (arguments : List Expr) (distinct : Bool) (output : Option String)
  | conjunction (children : List Expr)
  | negation (inner : Expr)
  /-- One row of values; the item at each place is stored in the column at the same place. -/
  | row (items : List Expr) (columns : List (Option Attribute))
  | named (inner : Expr) (output : String)

inductive Kind where
  | literal | raw | column | arithmetic | call | conjunction | negation | row | named
  deriving DecidableEq

def Kind.name : Kind → String
  | literal => "Literal"
  | raw => "SqlLiteral"
  | column => "Attribute"
  | arithmetic => "InfixOperation"
  | call => "NamedFunction"
  | conjunction => "Conjunction"
  | negation => "Negation"
  | row => "ValueList"
  | named => "As"

namespace Expr

def kind : Expr → Kind
  | literal .. => .literal
  | raw .. => .raw
  | column .. => .column
  | arithmetic .. => .arithmetic
  | call .. => .call
  | conjunction .. => .conjunction
  | negation .. => .negation
  | row .. => .row
  | named .. => .named

end Expr

end SqlFragment
