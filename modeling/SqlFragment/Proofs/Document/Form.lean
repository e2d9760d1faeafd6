import Mathlib.Data.List.Forall2
import SqlFragment.Document.Basic
import SqlFragment.Expr.Basic
import SqlFragment.Proofs.Calendar.Form

/-!
# The documents that stand for an expression

The format of documents, said without a reader. A record is an object in which fields are found by
name and other fields do not matter, or an array of its fields in order; a variant is an object of
its name and its content. `Represents l d e` says that `d` is one of the presentations of `e`, with
dates and timestamps in the layout `l`.
-/

namespace SqlFragment

open Document Calendar

namespace Document

variable {α : Type}

inductive OptionForm (form : Document → α → Prop) : Document → Option α → Prop where
  | none : OptionForm form null none
  | some {d : Document} {a : α} (here : form d a) : OptionForm form d (some a)

/-- A field that may be missing, and then is `fallback`. -/
inductive FieldOr (form : Document → α → Prop) (fallback : α) (fields : List (String × Document))
    (name : String) : α → Prop where
  | missing (absent : fields.lookup name = none) : FieldOr form fallback fields name fallback
  | present {d : Document} {a : α} (found : fields.lookup name = some d) (here : form d a) :
      FieldOr form fallback fields name a

def BoolForm (d : Document) (b : Bool) : Prop := d = bool b

def StringForm (d : Document) (s : String) : Prop := d = string s

/-- Every number counts as a double, an integer as the nearest one. -/
inductive NumberForm : Document → Binary64 → Prop where
  | integer (i : Int) : NumberForm (integer i) (Binary64.ofInt i)
  | float (x : Binary64) : NumberForm (float x) x

inductive UnitForm (name : String) : Document → Prop where
  | bare : UnitForm name (string name)
  | keyed : UnitForm name (object [(name, null)])

inductive AttributeForm : Document → Attribute → Prop where
  | object {fields : List (String × Document)} {table column : String}
      (tableFound : fields.lookup "table" = some (string table))
      (columnFound : fields.lookup "column" = some (string column)) :
      AttributeForm (object fields) ⟨table, column⟩
  | array (table column : String) :
      AttributeForm (array [string table, string column]) ⟨table, column⟩

inductive ValueForm (l : Layout) : Document → Value → Prop where
  | null {d : Document} (unit : UnitForm "Null" d) : ValueForm l d .null
  | boolean (b : Bool) : ValueForm l (object [("Boolean", bool b)]) (.boolean b)
  | integer (i : Int64) : ValueForm l (object [("Integer", integer i.toInt)]) (.integer i)
  | float {d : Document} {x : Binary64} (number : NumberForm d x) :
      ValueForm l (object [("Float", d)]) (.float x)
  | text (s : String) : ValueForm l (object [("Text", string s)]) (.text s)
  | date {s : String} {day : Date} (form : DateForm l s.toList day) :
      ValueForm l (object [("Date", string s)]) (.date day)
  | timestamp {s : String} {t : Timestamp} (form : TimestampForm l s.toList t) :
      ValueForm l (object [("Timestamp", string s)]) (.timestamp t)

/-- The last fields of a call that is an array; either both or the second may be left off. -/
inductive CallTail : List Document → Bool → Option String → Prop where
  | none : CallTail [] false none
  | distinct (b : Bool) : CallTail [bool b] b none
  | output {d : Document} {output : Option String} (b : Bool)
      (form : OptionForm StringForm d output) : CallTail [bool b, d] b output

end Document

mutual

inductive Represents (l : Layout) : Document → Expr → Prop where
  | literalObject {fields : List (String × Document)} {d : Document} {v : Value}
      {target : Option Attribute} (found : fields.lookup "value" = some d) (value : ValueForm l d v)
      (bound : FieldOr (OptionForm AttributeForm) none fields "attribute" target) :
      Represents l (object [("Literal", object fields)]) (.literal v target)
  | literalArray {d c : Document} {v : Value} {target : Option Attribute} (value : ValueForm l d v)
      (bound : OptionForm AttributeForm c target) :
      Represents l (object [("Literal", array [d, c])]) (.literal v target)
  | raw (sql : String) : Represents l (object [("SqlLiteral", string sql)]) (.raw sql)
  | column {d : Document} {a : Attribute} (bound : AttributeForm d a) :
      Represents l (object [("Attribute", d)]) (.column a)
  | arithmeticObject {fields : List (String × Document)} {c m n : Document} {op : Operator}
      {left right : Expr} (opFound : fields.lookup "operator" = some c) (unit : UnitForm op.name c)
      (leftFound : fields.lookup "left" = some m) (first : Represents l m left)
      (rightFound : fields.lookup "right" = some n) (second : Represents l n right) :
      Represents l (object [("Infix", object fields)]) (.arithmetic op left right)
  | arithmeticArray {c m n : Document} {op : Operator} {left right : Expr}
      (unit : UnitForm op.name c) (first : Represents l m left) (second : Represents l n right) :
      Represents l (object [("Infix", array [c, m, n])]) (.arithmetic op left right)
  | callObject {fields : List (String × Document)} {items : List Document} {name : String}
      {arguments : List Expr} {distinct : Bool} {output : Option String}
      (nameFound : fields.lookup "name" = some (string name))
      (visible : ∃ c ∈ name.toList, Text.isBlank c = false)
      (found : fields.lookup "arguments" = some (array items))
      (each : RepresentsAll l items arguments)
      (distinctForm : FieldOr BoolForm false fields "distinct" distinct)
      (outputForm : FieldOr (OptionForm StringForm) none fields "alias" output) :
      Represents l (object [("Function", object fields)]) (.call name arguments distinct output)
  | callArray {items tail : List Document} {name : String} {arguments : List Expr}
      {distinct : Bool} {output : Option String}
      (visible : ∃ c ∈ name.toList, Text.isBlank c = false)
      (each : RepresentsAll l items arguments) (rest : CallTail tail distinct output) :
      Represents l (object [("Function", array (string name :: array items :: tail))])
        (.call name arguments distinct output)
  | conjunction {items : List Document} {children : List Expr}
      (each : RepresentsAll l items children) (two : 2 ≤ children.length) :
      Represents l (object [("And", array items)]) (.conjunction children)
  | negation {d : Document} {inner : Expr} (below : Represents l d inner) :
      Represents l (object [("Not", d)]) (.negation inner)
  | row {ds cs : List Document} {items : List Expr} {columns : List (Option Attribute)}
      (each : RepresentsAll l ds items) (targets : List.Forall₂ (OptionForm AttributeForm) cs columns)
      (nonempty : items ≠ []) (same : items.length = columns.length) :
      Represents l (object [("Values", array [array ds, array cs])]) (.row items columns)
  | namedObject {fields : List (String × Document)} {d : Document} {inner : Expr} {output : String}
      (found : fields.lookup "expr" = some d) (below : Represents l d inner)
      (outputFound : fields.lookup "alias" = some (string output)) :
      Represents l (object [("As", object fields)]) (.named inner output)
  | namedArray {d : Document} {inner : Expr} (below : Represents l d inner) (output : String) :
      Represents l (object [("As", array [d, string output])]) (.named inner output)

inductive RepresentsAll (l : Layout) : List Document → List Expr → Prop where
  | nil : RepresentsAll l [] []
  | cons {d : Document} {e : Expr} {ds : List Document} {es : List Expr} (first : Represents l d e)
      (rest : RepresentsAll l ds es) : RepresentsAll l (d :: ds) (e :: es)

end

end SqlFragment
