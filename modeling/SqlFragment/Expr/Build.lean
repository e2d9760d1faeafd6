import SqlFragment.Expr.Basic
import SqlFragment.Text.Blank

/-!
# Building expressions

Most expressions can be built from any parts. A conjunction needs two children, a row one item and
as many columns as items, and a call a name that is not blank; what breaks such a rule is refused,
with the cause.
-/

namespace SqlFragment

inductive ConstructionError where
  | tooFewChildren (count : Nat)
  | lengthMismatch (items columns : Nat)
  | emptyFunctionName
  | emptyRow
  deriving DecidableEq

def ConstructionError.message : ConstructionError → String
  | tooFewChildren count => s!"Conjunction requires at least 2 children, got {count}"
  | lengthMismatch items columns =>
    s!"Value list has {items} expressions but {columns} columns"
  | emptyFunctionName => "Named function requires a non-empty name"
  | emptyRow => "Value list requires at least one expression"

namespace Expr

def conjunctionOf (children : List Expr) : Except ConstructionError Expr :=
  if children.length < 2 then .error (.tooFewChildren children.length)
  else .ok (conjunction children)

def both (left right : Expr) : Expr := conjunction [left, right]

@[simp] theorem both_eq (left right : Expr) : both left right = conjunction [left, right] := rfl

/-- A row that has no items is refused as empty, however many columns come with it. -/
def rowOf (items : List Expr) (columns : List (Option Attribute)) : Except ConstructionError Expr :=
  if items = [] then .error .emptyRow
  else if items.length ≠ columns.length then .error (.lengthMismatch items.length columns.length)
  else .ok (row items columns)

def unboundRow (items : List Expr) : Except ConstructionError Expr :=
  rowOf items (items.map fun _ => none)

/-- A call of the function; the name must not be blank, and is kept as it is. -/
def callOf (name : String) (arguments : List Expr) : Except ConstructionError Expr :=
  if Text.allBlank name then .error .emptyFunctionName
  else .ok (call name arguments false none)

/-- Whether a call counts each argument once; an expression of another kind stays as it is. -/
def withDistinct (distinct : Bool) : Expr → Expr
  | call name arguments _ output => call name arguments distinct output
  | e => e

def withOutput (output : String) : Expr → Expr
  | call name arguments distinct _ => call name arguments distinct (some output)
  | e => e

section Call

variable (name : String) (arguments : List Expr)

@[simp] theorem withDistinct_call (was distinct : Bool) (output : Option String) :
    (call name arguments was output).withDistinct distinct = call name arguments distinct output :=
  rfl

@[simp] theorem withOutput_call (distinct : Bool) (was : Option String) (output : String) :
    (call name arguments distinct was).withOutput output =
      call name arguments distinct (some output) :=
  rfl

end Call

/-! ### Aggregates and operators -/

def aggregate (name : String) (distinct : Bool) (e : Expr) : Expr := call name [e] distinct none

def count (e : Expr) (distinct : Bool) : Expr := e.aggregate "COUNT" distinct

def sum (e : Expr) : Expr := e.aggregate "SUM" false

def maximum (e : Expr) : Expr := e.aggregate "MAX" false

def minimum (e : Expr) : Expr := e.aggregate "MIN" false

def average (e : Expr) : Expr := e.aggregate "AVG" false

instance : Mul Expr := ⟨arithmetic .multiply⟩

instance : Div Expr := ⟨arithmetic .divide⟩

instance : Add Expr := ⟨arithmetic .add⟩

instance : Sub Expr := ⟨arithmetic .subtract⟩

section Equations

variable (e left right : Expr)

@[simp] theorem count_eq (distinct : Bool) :
    e.count distinct = call "COUNT" [e] distinct none :=
  rfl

@[simp] theorem sum_eq : e.sum = call "SUM" [e] false none := rfl

@[simp] theorem maximum_eq : e.maximum = call "MAX" [e] false none := rfl

@[simp] theorem minimum_eq : e.minimum = call "MIN" [e] false none := rfl

@[simp] theorem average_eq : e.average = call "AVG" [e] false none := rfl

@[simp] theorem mul_eq : left * right = arithmetic .multiply left right := rfl

@[simp] theorem div_eq : left / right = arithmetic .divide left right := rfl

@[simp] theorem add_eq : left + right = arithmetic .add left right := rfl

@[simp] theorem sub_eq : left - right = arithmetic .subtract left right := rfl

end Equations

end Expr

end SqlFragment
