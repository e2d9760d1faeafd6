import SqlFragment.Expr.Parts
import SqlFragment.Expr.Render
import SqlFragment.Proofs.Effect

/-!
# The pieces of a text

An expression laid out as the list of the pieces that its text consists of. `write_eq_foldlM` shows
that writing an expression is writing its pieces one after the other, so what a rendering does is
settled by induction on a list.
-/

namespace SqlFragment

inductive Piece where
  | fixed (text : String)
  | column (a : Attribute)
  | value (v : Value) (target : Option Attribute)
  /-- An item that no row can have. -/
  | refused (kind : Kind)

namespace Piece

def ofItem : Expr × Option Attribute → Piece
  | (.raw sql, _) => fixed sql
  | (.literal v _, target) => value v target
  | (item, _) => refused item.kind

def separated (separator : String) : List (List Piece) → List Piece
  | [] => []
  | first :: rest => first ++ rest.flatMap (fixed separator :: ·)

end Piece

mutual

def Expr.pieces : Expr → List Piece
  | .literal v target => [.value v target]
  | .raw sql => [.fixed sql]
  | .column a => [.column a]
  | .arithmetic op l r => l.pieces ++ .fixed (" " ++ op.symbol ++ " ") :: r.pieces
  | .call name args distinct output =>
    .fixed (name ++ "(" ++ (if distinct then "DISTINCT " else "")) ::
      (Piece.separated ", " (piecesOfEach args) ++ [.fixed (")" ++ outputClause output)])
  | .conjunction children => Piece.separated " AND " (piecesOfEach children)
  | .negation inner => .fixed "NOT (" :: (inner.pieces ++ [.fixed ")"])
  | .row items columns =>
    .fixed "VALUES (" ::
      (Piece.separated ", " ((items.zip columns).map fun item => [Piece.ofItem item]) ++ [.fixed ")"])
  | .named inner output => inner.pieces ++ [.fixed (" AS " ++ output)]

def piecesOfEach : List Expr → List (List Piece)
  | [] => []
  | e :: rest => e.pieces :: piecesOfEach rest

end

namespace Piece

variable {σ : Type} (d : Dialect) (find : TypeLookup σ)

def write (text : String) : Piece → Render σ String
  | fixed t => pure (text ++ t)
  | column a => pure (text ++ d.qualified a.table a.column)
  | value v target => do return text ++ (← quoteFor d find v target)
  | refused kind => throw (.unsupportedItem kind)

theorem foldlM_fixed (t : String) (rest : List Piece) (text : String) :
    (fixed t :: rest).foldlM (write d find) text = rest.foldlM (write d find) (text ++ t) := by
  rw [List.foldlM_cons]
  exact pure_bind _ _

theorem foldlM_last (t : String) (pieces : List Piece) (text : String) :
    (pieces ++ [fixed t]).foldlM (write d find) text =
      (do return (← pieces.foldlM (write d find) text) ++ t) := by
  rw [List.foldlM_append]
  rfl

end Piece

variable {σ : Type} (d : Dialect) (find : TypeLookup σ)

theorem writeItem_eq_write (item : Expr × Option Attribute) (text : String) :
    writeItem d find item.1 item.2 text = (Piece.ofItem item).write d find text := by
  obtain ⟨item, column⟩ := item
  cases item <;> rfl

theorem writeItems_eq_foldlM (items : List (Expr × Option Attribute)) (text : String) :
    writeItems d find items text =
      ((items.map fun item => [Piece.ofItem item]).flatMap (Piece.fixed ", " :: ·)).foldlM
        (Piece.write d find) text := by
  induction items generalizing text with
  | nil => rfl
  | cons item rest ih =>
    rw [writeItems, List.map_cons, List.flatMap_cons, List.cons_append, Piece.foldlM_fixed,
      List.foldlM_append, List.foldlM_cons, writeItem_eq_write d find item]
    simp only [List.foldlM_nil, bind_pure, ih]

theorem writeRow_eq_foldlM (items : List (Expr × Option Attribute)) (text : String) :
    writeRow d find items text =
      (Piece.separated ", " (items.map fun item => [Piece.ofItem item])).foldlM
        (Piece.write d find) text := by
  cases items with
  | nil => rfl
  | cons item rest =>
    rw [writeRow, List.map_cons, Piece.separated, List.foldlM_append, List.foldlM_cons,
      writeItem_eq_write d find item]
    simp only [List.foldlM_nil, bind_pure, writeItems_eq_foldlM]

mutual

theorem write_eq_foldlM (e : Expr) (text : String) :
    e.write d find text = e.pieces.foldlM (Piece.write d find) text := by
  cases e with
  | literal v target => simp [Expr.write, Expr.pieces, Piece.write]
  | raw sql => rfl
  | column a => rfl
  | arithmetic op l r =>
    simp only [Expr.write, Expr.pieces, List.foldlM_append, Piece.foldlM_fixed,
      write_eq_foldlM l, write_eq_foldlM r, String.append_assoc]
  | call name args distinct output =>
    simp only [Expr.write, Expr.pieces, Piece.foldlM_fixed, Piece.foldlM_last,
      writeAll_eq_foldlM, String.append_assoc]
  | conjunction children => rw [Expr.write, Expr.pieces, writeAll_eq_foldlM]
  | negation inner =>
    simp only [Expr.write, Expr.pieces, Piece.foldlM_fixed, Piece.foldlM_last,
      write_eq_foldlM inner]
  | row items columns =>
    simp only [Expr.write, Expr.pieces, Piece.foldlM_fixed, Piece.foldlM_last,
      writeRow_eq_foldlM]
  | named inner output =>
    simp only [Expr.write, Expr.pieces, Piece.foldlM_last, write_eq_foldlM inner,
      String.append_assoc]

theorem writeAll_eq_foldlM (separator : String) (es : List Expr) (text : String) :
    writeAll d find separator es text =
      (Piece.separated separator (piecesOfEach es)).foldlM (Piece.write d find) text := by
  cases es with
  | nil => rfl
  | cons e rest =>
    simp only [writeAll, piecesOfEach, Piece.separated, List.foldlM_append, write_eq_foldlM e,
      writeRest_eq_foldlM separator rest]

theorem writeRest_eq_foldlM (separator : String) (es : List Expr) (text : String) :
    writeRest d find separator es text =
      ((piecesOfEach es).flatMap (Piece.fixed separator :: ·)).foldlM (Piece.write d find) text := by
  cases es with
  | nil => rfl
  | cons e rest =>
    simp only [writeRest, piecesOfEach, List.flatMap_cons, List.cons_append, Piece.foldlM_fixed,
      List.foldlM_append, write_eq_foldlM e, writeRest_eq_foldlM separator rest]

end

/-! ### Where pieces come from -/

theorem piecesOfEach_eq_map (es : List Expr) : piecesOfEach es = es.map Expr.pieces := by
  induction es with
  | nil => rfl
  | cons e rest ih => rw [piecesOfEach, List.map_cons, ih]

theorem Piece.mem_separated {separator : String} {lists : List (List Piece)} {piece : Piece}
    (member : piece ∈ separated separator lists) :
    piece = fixed separator ∨ ∃ list ∈ lists, piece ∈ list := by
  cases lists with
  | nil => cases member
  | cons first rest =>
    rcases List.mem_append.mp member with member | member
    · exact Or.inr ⟨first, List.mem_cons_self, member⟩
    · obtain ⟨list, later, member⟩ := List.mem_flatMap.mp member
      rcases List.mem_cons.mp member with same | member
      · exact Or.inl same
      · exact Or.inr ⟨list, List.mem_cons_of_mem _ later, member⟩

/-- A piece is fixed text, is refused, or comes from a column or a literal somewhere in the
expression; the column that a literal is written for may be that of a row. -/
theorem pieces_of_everywhere {p : Expr → Prop} {good : Piece → Prop}
    (fixed : ∀ t, good (.fixed t)) (refused : ∀ kind, good (.refused kind))
    (column : ∀ a, p (.column a) → good (.column a))
    (value : ∀ v own target, p (.literal v own) → good (.value v target)) {e : Expr}
    (h : e.Everywhere p) : ∀ piece ∈ e.pieces, good piece := by
  have separated : ∀ (separator : String) (es : List Expr),
      (∀ part ∈ es, ∀ piece ∈ part.pieces, good piece) →
      ∀ piece ∈ Piece.separated separator (piecesOfEach es), good piece := by
    intro separator es each piece member
    rcases Piece.mem_separated member with rfl | ⟨list, one, member⟩
    · exact fixed separator
    · rw [piecesOfEach_eq_map] at one
      obtain ⟨part, below, rfl⟩ := List.mem_map.mp one
      exact each part below piece member
  induction e using Expr.of_parts with
  | step e ih =>
    have parts : ∀ part ∈ e.parts, ∀ piece ∈ part.pieces, good piece := fun part member =>
      ih part member (h.part member)
    cases e with
    | literal v own => exact List.forall_mem_singleton.mpr (value v own own h.here)
    | raw sql => exact List.forall_mem_singleton.mpr (fixed sql)
    | column a => exact List.forall_mem_singleton.mpr (column a h.here)
    | arithmetic op l r =>
      refine List.forall_mem_append.mpr ⟨parts l List.mem_cons_self, ?_⟩
      exact List.forall_mem_cons.mpr
        ⟨fixed _, parts r (List.mem_cons_of_mem _ (List.mem_singleton.mpr rfl))⟩
    | call name args distinct output =>
      refine List.forall_mem_cons.mpr ⟨fixed _, List.forall_mem_append.mpr ⟨?_, ?_⟩⟩
      · exact separated ", " args parts
      · exact List.forall_mem_singleton.mpr (fixed _)
    | conjunction children => exact separated " AND " children parts
    | negation inner =>
      refine List.forall_mem_cons.mpr ⟨fixed _, List.forall_mem_append.mpr ⟨?_, ?_⟩⟩
      · exact parts inner (List.mem_singleton.mpr rfl)
      · exact List.forall_mem_singleton.mpr (fixed _)
    | row items columns =>
      refine List.forall_mem_cons.mpr ⟨fixed _, List.forall_mem_append.mpr ⟨?_, ?_⟩⟩
      · intro piece member
        rcases Piece.mem_separated member with rfl | ⟨list, one, member⟩
        · exact fixed _
        · obtain ⟨⟨item, target⟩, pair, rfl⟩ := List.mem_map.mp one
          rw [List.mem_singleton.mp member]
          have here : item.Everywhere p := h.part (List.of_mem_zip pair).1
          cases item with
          | raw sql => exact fixed sql
          | literal v own => exact value v own target here.here
          | _ => exact refused _
      · exact List.forall_mem_singleton.mpr (fixed _)
    | named inner output =>
      refine List.forall_mem_append.mpr ⟨parts inner (List.mem_singleton.mpr rfl), ?_⟩
      exact List.forall_mem_singleton.mpr (fixed _)

/-! ### Lookups that agree -/

section Agreement

variable {τ : Type} {related : σ → τ → Prop} {find : TypeLookup σ} {other : TypeLookup τ}

theorem agree_quoteFor (v : Value) {target : Option Attribute}
    (lookups : ∀ a ∈ target, Effect.Agree related (find a) (other a)) :
    Effect.Agree related (quoteFor d find v target) (quoteFor d other v target) := by
  cases target with
  | none => exact Effect.agree_pure _
  | some a =>
    exact Effect.agree_bind (Effect.agree_adapt _ (lookups a rfl)) fun _ => Effect.agree_pure _

theorem Piece.agree_write (text : String) {piece : Piece}
    (lookups : ∀ v a, piece = value v (some a) → Effect.Agree related (find a) (other a)) :
    Effect.Agree related (piece.write d find text) (piece.write d other text) := by
  cases piece with
  | fixed t => exact Effect.agree_pure _
  | column a => exact Effect.agree_pure _
  | value v target =>
    have quoted := agree_quoteFor d v fun a member => lookups v a (congrArg (value v) member)
    exact Effect.agree_bind quoted fun _ => Effect.agree_pure _
  | refused kind => exact Effect.agree_throw _

theorem agree_write_of_pieces {e : Expr}
    (lookups : ∀ v a, .value v (some a) ∈ e.pieces → Effect.Agree related (find a) (other a))
    (text : String) : Effect.Agree related (e.write d find text) (e.write d other text) := by
  rw [write_eq_foldlM, write_eq_foldlM]
  exact Effect.agree_foldlM
    (fun text _ member => Piece.agree_write d text fun v a same => lookups v a (same ▸ member)) text

theorem agree_write (lookups : ∀ a, Effect.Agree related (find a) (other a)) (e : Expr)
    (text : String) : Effect.Agree related (e.write d find text) (e.write d other text) :=
  agree_write_of_pieces d (fun _ a _ => lookups a) text

end Agreement

end SqlFragment
