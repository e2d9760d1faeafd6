import SqlFragment.Dialect.Identifier
import SqlFragment.Dialect.Literal
import SqlFragment.Expr.Basic
import SqlFragment.Lookup.Cache

/-!
# Expressions as SQL text

An expression is written from left to right behind the text that is there already. Bound literals
ask for the type of their column as they are reached; the first lookup that fails, or the first item
of a row that is neither a literal nor raw text, ends the writing.
-/

namespace SqlFragment

inductive RenderError where
  | unsupportedItem (kind : Kind)
  | lookup (e : LookupError)
  deriving DecidableEq

def RenderError.message : RenderError → String
  | unsupportedItem kind => "Unsupported node '" ++ kind.name ++ "' in VALUES list"
  | lookup e => e.message

structure Settings where
  dialect : Dialect
  deriving DecidableEq, Inhabited

/-- Finds the type of an attribute's column; nothing if the column is not known. -/
abbrev TypeLookup (σ : Type) := Attribute → Effect σ LookupError (Option ColumnType)

def TypeLookup.none : TypeLookup Unit := fun _ => pure .none

def TypeLookup.cached {σ : Type} (provider : Provider σ) : TypeLookup (SchemaCache σ) := fun a => do
  let column ← SchemaCache.columnFor provider a
  return column.map (·.type)

abbrev Render (σ α : Type) := Effect σ RenderError α

variable {σ : Type}

def quoteFor (d : Dialect) (find : TypeLookup σ) (v : Value) (target : Option Attribute) :
    Render σ String :=
  match target with
  | none => pure (d.literal none v)
  | some a => do
    let type ← ExceptT.adapt RenderError.lookup (find a)
    return d.literal type v

/-- An item of a row, written for its column; a column of the literal's own does not count. -/
def writeItem (d : Dialect) (find : TypeLookup σ) (item : Expr) (column : Option Attribute)
    (text : String) : Render σ String :=
  match item with
  | .raw sql => pure (text ++ sql)
  | .literal v _ => do return text ++ (← quoteFor d find v column)
  | other => throw (.unsupportedItem other.kind)

def writeItems (d : Dialect) (find : TypeLookup σ) :
    List (Expr × Option Attribute) → String → Render σ String
  | [], text => pure text
  | (item, column) :: rest, text => do
    writeItems d find rest (← writeItem d find item column (text ++ ", "))

def writeRow (d : Dialect) (find : TypeLookup σ) (items : List (Expr × Option Attribute))
    (text : String) : Render σ String :=
  match items with
  | [] => pure text
  | (item, column) :: rest => do writeItems d find rest (← writeItem d find item column text)

def outputClause : Option String → String
  | none => ""
  | some output => " AS " ++ output

mutual

def Expr.write (d : Dialect) (find : TypeLookup σ) : Expr → String → Render σ String
  | .literal v target, text => do return text ++ (← quoteFor d find v target)
  | .raw sql, text => pure (text ++ sql)
  | .column a, text => pure (text ++ d.qualified a.table a.column)
  | .arithmetic op l r, text => do
    let text ← l.write d find text
    r.write d find (text ++ " " ++ op.symbol ++ " ")
  | .call name args distinct output, text => do
    let text := text ++ name ++ "(" ++ (if distinct then "DISTINCT " else "")
    let text ← writeAll d find ", " args text
    return text ++ ")" ++ outputClause output
  | .conjunction children, text => writeAll d find " AND " children text
  | .negation inner, text => do
    let text ← inner.write d find (text ++ "NOT (")
    return text ++ ")"
  | .row items columns, text => do
    let text ← writeRow d find (items.zip columns) (text ++ "VALUES (")
    return text ++ ")"
  | .named inner output, text => do
    let text ← inner.write d find text
    return text ++ " AS " ++ output

def writeAll (d : Dialect) (find : TypeLookup σ) (separator : String) :
    List Expr → String → Render σ String
  | [], text => pure text
  | e :: rest, text => do writeRest d find separator rest (← e.write d find text)

def writeRest (d : Dialect) (find : TypeLookup σ) (separator : String) :
    List Expr → String → Render σ String
  | [], text => pure text
  | e :: rest, text => do
    writeRest d find separator rest (← e.write d find (text ++ separator))

end

namespace Expr

def render (d : Dialect) (find : TypeLookup σ) (e : Expr) : Render σ String := e.write d find ""

def renderCached (d : Dialect) (provider : Provider σ) (e : Expr) :
    Render (SchemaCache σ) String :=
  e.render d (TypeLookup.cached provider)

/-- Renders without a schema; no literal is quoted for its column. -/
def renderPlain (d : Dialect) (e : Expr) : Except RenderError String :=
  ((e.render d TypeLookup.none).run.run ()).1

end Expr

end SqlFragment
