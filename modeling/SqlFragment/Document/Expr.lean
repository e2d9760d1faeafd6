import SqlFragment.Document.Metadata
import SqlFragment.Document.Value

/-!
# Expressions as documents

An expression is an object of the name of its kind and the content of that kind. Reading takes the
parts first and then builds the expression from them, so what a construction rule refuses is refused
with that rule's error.
-/

namespace SqlFragment

open Document

namespace Kind

def all : List Kind :=
  [literal, raw, column, arithmetic, call, conjunction, negation, row, named]

def tag : Kind → String
  | literal => "Literal"
  | raw => "SqlLiteral"
  | column => "Attribute"
  | arithmetic => "Infix"
  | call => "Function"
  | conjunction => "And"
  | negation => "Not"
  | row => "Values"
  | named => "As"

end Kind

namespace Expr

/-! ### Writing -/

def tagged (kind : Kind) (content : Document) : Document := object [(kind.tag, content)]

mutual

def content : Expr → Document
  | literal v target =>
    object [("attribute", encodeOption Attribute.encode target), ("value", v.encode)]
  | raw sql => string sql
  | column a => a.encode
  | arithmetic op l r =>
    object [("left", tagged l.kind l.content), ("operator", op.encode),
      ("right", tagged r.kind r.content)]
  | call name arguments distinct output =>
    object [("alias", encodeOption string output), ("arguments", array (encodeAll arguments)),
      ("distinct", bool distinct), ("name", string name)]
  | conjunction children => array (encodeAll children)
  | negation inner => tagged inner.kind inner.content
  | row items columns =>
    array [array (encodeAll items), array (columns.map (encodeOption Attribute.encode))]
  | named inner output =>
    object [("alias", string output), ("expr", tagged inner.kind inner.content)]

def encodeAll : List Expr → List Document
  | [] => []
  | e :: rest => tagged e.kind e.content :: encodeAll rest

end

def encode (e : Expr) : Document := tagged e.kind e.content

/-! ### Reading the content of each kind -/

def literalOfFields (fields : List (String × Document)) : Except DecodeError Expr := do
  let target ← field? fields "attribute" (readOptional Attribute.decode)
  let value ← field? fields "value" Value.decode
  return literal (← required "value" value) target.join

def literalOfItems (items : List Document) : Except DecodeError Expr := do
  let (value, items) ← nextItem Value.decode items
  let (target, items) ← nextItem (readOptional Attribute.decode) items
  noMoreItems items
  return literal value target

def readLiteral : Reader Expr := readRecord literalOfFields literalOfItems

def built (e : Except ConstructionError Expr) : Except DecodeError Expr :=
  e.mapError .construction

def builtCall (name : String) (arguments : List Expr) (distinct : Bool) (output : Option String) :
    Except DecodeError Expr := do
  let e ← built (callOf name arguments)
  return output.elim (e.withDistinct distinct) (e.withDistinct distinct).withOutput

variable (child : Reader Expr)

def arithmeticOfFields (fields : List (String × Document)) : Except DecodeError Expr := do
  let left ← field? fields "left" child
  let op ← field? fields "operator" Operator.decode
  let right ← field? fields "right" child
  return arithmetic (← required "operator" op) (← required "left" left) (← required "right" right)

def arithmeticOfItems (items : List Document) : Except DecodeError Expr := do
  let (op, items) ← nextItem Operator.decode items
  let (left, items) ← nextItem child items
  let (right, items) ← nextItem child items
  noMoreItems items
  return arithmetic op left right

def readArithmetic : Reader Expr :=
  readRecord (arithmeticOfFields child) (arithmeticOfItems child)

def callOfFields (fields : List (String × Document)) : Except DecodeError Expr := do
  let output ← field? fields "alias" (readOptional readString)
  let arguments ← field? fields "arguments" (readAll child)
  let distinct ← field? fields "distinct" readBool
  let name ← field? fields "name" readString
  let name ← required "name" name
  let arguments ← required "arguments" arguments
  builtCall name arguments (distinct.getD false) output.join

/-- The last two fields may be left off the end. -/
def callOfItems (items : List Document) : Except DecodeError Expr := do
  let (name, items) ← nextItem readString items
  let (arguments, items) ← nextItem (readAll child) items
  let (distinct, items) ← nextItemOr false readBool items
  let (output, items) ← nextItemOr none (readOptional readString) items
  noMoreItems items
  builtCall name arguments distinct output

def readCall : Reader Expr := readRecord (callOfFields child) (callOfItems child)

def readConjunction : Reader Expr := fun d => do
  built (conjunctionOf (← readAll child d))

def rowOfItems (items : List Document) : Except DecodeError Expr := do
  let (exprs, items) ← nextItem (readAll child) items
  let (columns, items) ← nextItem (readAll (readOptional Attribute.decode)) items
  noMoreItems items
  built (rowOf exprs columns)

def readRow : Reader Expr
  | array items => rowOfItems child items
  | _ => .error .invalidType

def namedOfFields (fields : List (String × Document)) : Except DecodeError Expr := do
  let output ← field? fields "alias" readString
  let inner ← field? fields "expr" child
  return named (← required "expr" inner) (← required "alias" output)

def namedOfItems (items : List Document) : Except DecodeError Expr := do
  let (inner, items) ← nextItem child items
  let (output, items) ← nextItem readString items
  noMoreItems items
  return named inner output

def readNamed : Reader Expr := readRecord (namedOfFields child) (namedOfItems child)

def readContent : Kind → Reader Expr
  | .literal => readLiteral
  | .raw => fun d => raw <$> readString d
  | .column => fun d => column <$> Attribute.decode d
  | .arithmetic => readArithmetic child
  | .call => readCall child
  | .conjunction => readConjunction child
  | .negation => fun d => negation <$> child d
  | .row => readRow child
  | .named => readNamed child

/-! ### Reading an expression -/

/-- Reads one level, and the expressions below it with `child`. -/
def readLevel : Reader Expr := fun d => do
  let (name, content) ← readTagged d
  let kind ← variantOf Kind.all Kind.tag name
  readContent child kind (← contentOf content)

def readWithin : Nat → Reader Expr
  | 0 => fun _ => .error .invalidType
  | n + 1 => readLevel (readWithin n)

def decode : Reader Expr := fun d => readWithin d.depth d

end Expr

end SqlFragment
