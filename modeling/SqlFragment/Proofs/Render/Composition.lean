import SqlFragment.Proofs.Render.Pieces

/-!
# The text of an expression, composed from the texts of its parts

`Expr.text?` gives the text of an expression by recursion on it, without a buffer and without
effects, from what is known of the columns. `Expr.demands` lists what has to be found out and what
cannot be written, from left to right. Main statement: both are what the pieces of the expression
give one after the other (`text?_eq_textOf?`, `demands_eq_filterMap`).
-/

namespace SqlFragment

/-- What is known of columns: nothing if the table is not known, and no type if the table is known
and lacks the column. -/
abbrev KnownTypes := Attribute → Option (Option ColumnType)

def literalText? (d : Dialect) (known : KnownTypes) (v : Value) : Option Attribute → Option String
  | none => some (d.literal none v)
  | some a => (known a).map fun type => d.literal type v

/-- An item of a row; a literal counts for the column of the row, never for its own. -/
def itemText? (d : Dialect) (known : KnownTypes) : Expr × Option Attribute → Option String
  | (.raw sql, _) => some sql
  | (.literal v _, target) => literalText? d known v target
  | _ => none

mutual

def Expr.text? (d : Dialect) (known : KnownTypes) : Expr → Option String
  | .literal v target => literalText? d known v target
  | .raw sql => some sql
  | .column a => some (d.qualified a.table a.column)
  | .arithmetic op l r => do
    let left ← l.text? d known
    let right ← r.text? d known
    return left ++ " " ++ op.symbol ++ " " ++ right
  | .call name args distinct output => do
    let texts ← textOfEach? d known args
    return name ++ "(" ++ (if distinct then "DISTINCT " else "") ++ ", ".intercalate texts ++ ")" ++
      outputClause output
  | .conjunction children => do
    let texts ← textOfEach? d known children
    return " AND ".intercalate texts
  | .negation inner => do
    let text ← inner.text? d known
    return "NOT (" ++ text ++ ")"
  | .row items columns => do
    let texts ← (items.zip columns).mapM (itemText? d known)
    return "VALUES (" ++ ", ".intercalate texts ++ ")"
  | .named inner output => do
    let text ← inner.text? d known
    return text ++ " AS " ++ output

def textOfEach? (d : Dialect) (known : KnownTypes) : List Expr → Option (List String)
  | [] => some []
  | e :: rest => do
    let text ← e.text? d known
    let texts ← textOfEach? d known rest
    return text :: texts

end

/-- A step of a rendering that can fail. -/
inductive Demand where
  /-- The type of a column has to be found. -/
  | type (a : Attribute)
  /-- An item that no row can have is reached. -/
  | refusal (kind : Kind)
  deriving DecidableEq

def Demand.ofTarget (target : Option Attribute) : List Demand := target.toList.map type

def Demand.ofItem : Expr × Option Attribute → List Demand
  | (.raw _, _) => []
  | (.literal _ _, target) => ofTarget target
  | (item, _) => [refusal item.kind]

mutual

/-- What the rendering of an expression demands, depth first and from left to right. -/
def Expr.demands : Expr → List Demand
  | .literal _ target => Demand.ofTarget target
  | .raw _ => []
  | .column _ => []
  | .arithmetic _ l r => l.demands ++ r.demands
  | .call _ args _ _ => demandsOfEach args
  | .conjunction children => demandsOfEach children
  | .negation inner => inner.demands
  | .row items columns => (items.zip columns).flatMap Demand.ofItem
  | .named inner _ => inner.demands

def demandsOfEach : List Expr → List Demand
  | [] => []
  | e :: rest => e.demands ++ demandsOfEach rest

end

namespace Piece

variable (d : Dialect) (known : KnownTypes)

def text? : Piece → Option String
  | fixed t => some t
  | column a => some (d.qualified a.table a.column)
  | value v target => literalText? d known v target
  | refused _ => none

def textOf? : List Piece → Option String
  | [] => some ""
  | piece :: rest => do
    let text ← piece.text? d known
    let texts ← textOf? rest
    return text ++ texts

def demand? : Piece → Option Demand
  | fixed _ => none
  | column _ => none
  | value _ target => target.map .type
  | refused kind => some (.refusal kind)

/-! ### Texts of pieces -/

theorem textOf?_append (left right : List Piece) :
    textOf? d known (left ++ right) = (do
      let l ← textOf? d known left
      let r ← textOf? d known right
      return l ++ r) := by
  induction left with
  | nil => simp [textOf?]
  | cons piece rest ih =>
    simp only [List.cons_append, textOf?, ih]
    cases piece.text? d known <;> cases textOf? d known rest <;>
      cases textOf? d known right <;> simp [String.append_assoc]

theorem textOf?_singleton (piece : Piece) : textOf? d known [piece] = piece.text? d known := by
  simp [textOf?]

theorem textOf?_congr {d other : Dialect} {known seen : KnownTypes} {pieces : List Piece}
    (same : ∀ piece ∈ pieces, piece.text? d known = piece.text? other seen) :
    textOf? d known pieces = textOf? other seen pieces := by
  induction pieces with
  | nil => rfl
  | cons piece rest ih =>
    obtain ⟨first, others⟩ := List.forall_mem_cons.mp same
    rw [textOf?, textOf?, first, ih others]

theorem separated_cons_cons (separator : String) (first second : List Piece)
    (rest : List (List Piece)) :
    separated separator (first :: second :: rest) =
      first ++ fixed separator :: separated separator (second :: rest) := by
  simp [separated]

theorem textOf?_separated (separator : String) (parts : List (List Piece)) :
    textOf? d known (separated separator parts) =
      (parts.mapM (textOf? d known)).map separator.intercalate := by
  induction parts with
  | nil => simp [separated, textOf?]
  | cons first rest ih =>
    cases rest with
    | nil => cases h : textOf? d known first <;> simp [separated, h]
    | cons second rest =>
      rw [separated_cons_cons, textOf?_append, textOf?, ih]
      simp only [List.mapM_cons]
      cases textOf? d known first with
      | none => rfl
      | some text =>
        cases textOf? d known second <;> cases rest.mapM (textOf? d known) <;>
          simp [text?, String.intercalate_cons_cons, String.append_assoc]

theorem text?_ofItem (item : Expr × Option Attribute) :
    (ofItem item).text? d known = itemText? d known item := by
  obtain ⟨item, target⟩ := item
  cases item <;> rfl

theorem mapM_ofItem (items : List (Expr × Option Attribute)) :
    (items.map fun item => [ofItem item]).mapM (textOf? d known) =
      items.mapM (itemText? d known) := by
  rw [List.mapM_map]
  congr 1
  funext item
  exact (textOf?_singleton d known _).trans (text?_ofItem d known item)

/-! ### Demands of pieces -/

theorem filterMap_separated (separator : String) (parts : List (List Piece)) :
    (separated separator parts).filterMap demand? = parts.flatMap (·.filterMap demand?) := by
  cases parts with
  | nil => rfl
  | cons first rest =>
    rw [separated, List.filterMap_append, List.flatMap_cons, List.filterMap_flatMap]
    rfl

theorem demand?_ofItem (item : Expr × Option Attribute) :
    (ofItem item).demand?.toList = Demand.ofItem item := by
  obtain ⟨item, target⟩ := item
  cases item <;> cases target <;> rfl

end Piece

open Piece

mutual

/-- The text composed by recursion is what the pieces give one after the other. -/
theorem text?_eq_textOf? (d : Dialect) (known : KnownTypes) (e : Expr) :
    e.text? d known = textOf? d known e.pieces := by
  cases e with
  | literal v target => simp [Expr.text?, Expr.pieces, textOf?, Piece.text?]
  | raw sql => simp [Expr.text?, Expr.pieces, textOf?, Piece.text?]
  | column a => simp [Expr.text?, Expr.pieces, textOf?, Piece.text?]
  | arithmetic op l r =>
    rw [Expr.text?, Expr.pieces, textOf?_append, textOf?, text?_eq_textOf? d known l,
      text?_eq_textOf? d known r]
    cases textOf? d known l.pieces <;> cases textOf? d known r.pieces <;>
      simp [Piece.text?, String.append_assoc]
  | call name args distinct output =>
    rw [Expr.text?, Expr.pieces, textOf?, textOf?_append, textOf?_singleton, textOf?_separated,
      textOfEach?_eq_mapM d known args]
    cases (piecesOfEach args).mapM (textOf? d known) <;> simp [Piece.text?, String.append_assoc]
  | conjunction children =>
    rw [Expr.text?, Expr.pieces, textOf?_separated, textOfEach?_eq_mapM d known children]
    cases (piecesOfEach children).mapM (textOf? d known) <;> rfl
  | negation inner =>
    rw [Expr.text?, Expr.pieces, textOf?, textOf?_append, textOf?_singleton,
      text?_eq_textOf? d known inner]
    cases textOf? d known inner.pieces <;> simp [Piece.text?, String.append_assoc]
  | row items columns =>
    rw [Expr.text?, Expr.pieces, textOf?, textOf?_append, textOf?_singleton, textOf?_separated,
      mapM_ofItem]
    cases (items.zip columns).mapM (itemText? d known) <;>
      simp [Piece.text?, String.append_assoc]
  | named inner output =>
    rw [Expr.text?, Expr.pieces, textOf?_append, textOf?_singleton, text?_eq_textOf? d known inner]
    cases textOf? d known inner.pieces <;> simp [Piece.text?, String.append_assoc]

theorem textOfEach?_eq_mapM (d : Dialect) (known : KnownTypes) (es : List Expr) :
    textOfEach? d known es = (piecesOfEach es).mapM (textOf? d known) := by
  cases es with
  | nil => rfl
  | cons e rest =>
    rw [textOfEach?, piecesOfEach, List.mapM_cons, text?_eq_textOf? d known e,
      textOfEach?_eq_mapM d known rest]

end

mutual

theorem demands_eq_filterMap (e : Expr) : e.demands = e.pieces.filterMap demand? := by
  cases e with
  | literal v target => cases target <;> rfl
  | raw sql => rfl
  | column a => rfl
  | arithmetic op l r =>
    rw [Expr.demands, Expr.pieces, List.filterMap_append, demands_eq_filterMap l,
      demands_eq_filterMap r]
    rfl
  | call name args distinct output =>
    rw [Expr.demands, Expr.pieces, demandsOfEach_eq_flatMap args, ← filterMap_separated ", "]
    simp [List.filterMap_cons, demand?]
  | conjunction children =>
    rw [Expr.demands, Expr.pieces, demandsOfEach_eq_flatMap children, filterMap_separated]
  | negation inner =>
    rw [Expr.demands, Expr.pieces, demands_eq_filterMap inner]
    simp [List.filterMap_cons, demand?]
  | row items columns =>
    have each : ∀ item, [ofItem item].filterMap demand? = Demand.ofItem item := fun item => by
      rw [← demand?_ofItem]
      cases h : (ofItem item).demand? <;> simp [h]
    rw [Expr.demands, Expr.pieces, List.filterMap_cons, List.filterMap_append, filterMap_separated,
      List.flatMap_map]
    simp [demand?, each]
  | named inner output =>
    rw [Expr.demands, Expr.pieces, demands_eq_filterMap inner]
    simp [demand?]

theorem demandsOfEach_eq_flatMap (es : List Expr) :
    demandsOfEach es = (piecesOfEach es).flatMap (·.filterMap demand?) := by
  cases es with
  | nil => rfl
  | cons e rest =>
    rw [demandsOfEach, piecesOfEach, List.flatMap_cons, demands_eq_filterMap e,
      demandsOfEach_eq_flatMap rest]

end

theorem mem_demands_of_piece {e : Expr} {v : Value} {a : Attribute}
    (piece : .value v (some a) ∈ e.pieces) : .type a ∈ e.demands := by
  rw [demands_eq_filterMap, List.mem_filterMap]
  exact ⟨_, piece, rfl⟩

end SqlFragment
