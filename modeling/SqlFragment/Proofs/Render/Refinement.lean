import SqlFragment.Proofs.Lookup.Columns
import SqlFragment.Proofs.Render.Composition

/-!
# Rendering refines the composed text

Rendering meets the demands of an expression from left to right, each in the state that the ones
before it left behind, and ends with the first that is not met. If all are met, the text is the one
composed from what the lookups found. Main statement: `write_refines_composition`, for the lookups of
a cache and for those without a schema.
-/

namespace SqlFragment

variable {σ : Type}

def Demand.meet (find : TypeLookup σ) : Demand → Render σ Unit
  | type a => do
    let _ ← ExceptT.adapt RenderError.lookup (find a)
    return
  | refusal kind => throw (.unsupportedItem kind)

/-- Meets the demands one after the other, up to the first that cannot be met. -/
def meetAll (find : TypeLookup σ) : List Demand → Render σ Unit
  | [] => pure ()
  | demand :: rest => do
    demand.meet find
    meetAll find rest

/-- From `s`, all demands before one of them are met, and that one fails with `x` and leaves
`after` behind. -/
def FailsFirst (find : TypeLookup σ) (demands : List Demand) (s : σ) (x : RenderError)
    (after : σ) : Prop :=
  ∃ met demand rest between, demands = met ++ demand :: rest ∧
    (meetAll find met).run.run s = (.ok (), between) ∧
    (demand.meet find).run.run between = (.error x, after)

/-- What the state knows of columns agrees with the lookups: a type that was found is known from
then on, and a lookup that failed leaves nothing known. -/
structure Keeps (find : TypeLookup σ) (known : σ → KnownTypes) : Prop where
  found : ∀ {a s type after}, (find a).run.run s = (.ok type, after) → known after a = some type
  failed : ∀ {a s x after}, (find a).run.run s = (.error x, after) → known after a = none
  kept : ∀ {b s type} a, known s b = some type →
    known ((find a).run.run s).2 b = some type

/-! ### Meeting demands -/

section Meeting

variable {find : TypeLookup σ} {a : Attribute} {s after : σ}

theorem run_meet_found {type : Option ColumnType}
    (h : (find a).run.run s = (.ok type, after)) :
    ((Demand.type a).meet find).run.run s = (.ok (), after) :=
  Effect.run_bind_ok (Effect.run_adapt_ok h RenderError.lookup) _

theorem run_meet_failed {x : LookupError} (h : (find a).run.run s = (.error x, after)) :
    ((Demand.type a).meet find).run.run s = (.error (.lookup x), after) :=
  Effect.run_bind_error (Effect.run_adapt_error h RenderError.lookup) _

theorem run_meetAll_met {demand : Demand} (h : (demand.meet find).run.run s = (.ok (), after))
    (rest : List Demand) :
    (meetAll find (demand :: rest)).run.run s = (meetAll find rest).run.run after :=
  Effect.run_bind_ok h _

theorem run_meetAll_failed {demand : Demand} {x : RenderError}
    (h : (demand.meet find).run.run s = (.error x, after)) (rest : List Demand) :
    (meetAll find (demand :: rest)).run.run s = (.error x, after) :=
  Effect.run_bind_error h _

theorem meetAll_append (find : TypeLookup σ) (met rest : List Demand) :
    meetAll find (met ++ rest) = (do meetAll find met; meetAll find rest) := by
  induction met with
  | nil => exact (pure_bind _ _).symm
  | cons demand met ih =>
    rw [List.cons_append, meetAll, ih, meetAll, bind_assoc]

theorem failsFirst_nil {x : RenderError} : ¬ FailsFirst find [] s x after := by
  rintro ⟨met, demand, rest, between, split, -⟩
  simp at split

theorem failsFirst_cons_met {demand : Demand} {rest : List Demand} {between : σ} {x : RenderError}
    (h : (demand.meet find).run.run s = (.ok (), between)) :
    FailsFirst find (demand :: rest) s x after ↔ FailsFirst find rest between x after := by
  constructor
  · rintro ⟨met, failing, later, reached, split, before, failed⟩
    cases met with
    | nil =>
      obtain ⟨rfl, rfl⟩ := List.cons.inj split
      obtain ⟨-, rfl⟩ := Prod.mk.inj before
      rw [h] at failed
      cases failed
    | cons first met =>
      obtain ⟨rfl, rfl⟩ := List.cons.inj split
      rw [run_meetAll_met h] at before
      exact ⟨met, failing, later, reached, rfl, before, failed⟩
  · rintro ⟨met, failing, later, reached, rfl, before, failed⟩
    exact ⟨demand :: met, failing, later, reached, rfl, (run_meetAll_met h met).trans before, failed⟩

theorem failsFirst_cons_failed {demand : Demand} {rest : List Demand} {between : σ}
    {x y : RenderError} (h : (demand.meet find).run.run s = (.error y, between)) :
    FailsFirst find (demand :: rest) s x after ↔ y = x ∧ between = after := by
  constructor
  · rintro ⟨met, failing, later, reached, split, before, failed⟩
    cases met with
    | nil =>
      obtain ⟨rfl, rfl⟩ := List.cons.inj split
      obtain ⟨-, rfl⟩ := Prod.mk.inj before
      rw [h] at failed
      cases failed
      exact ⟨rfl, rfl⟩
    | cons first met =>
      obtain ⟨rfl, rfl⟩ := List.cons.inj split
      rw [run_meetAll_failed h] at before
      cases before
  · rintro ⟨rfl, rfl⟩
    exact ⟨[], demand, rest, s, rfl, rfl, h⟩

theorem meetAll_error_iff {demands : List Demand} {x : RenderError} :
    (meetAll find demands).run.run s = (.error x, after) ↔ FailsFirst find demands s x after := by
  induction demands generalizing s with
  | nil =>
    constructor
    · intro h
      cases h
    · intro h
      exact absurd h failsFirst_nil
  | cons demand rest ih =>
    rcases h : (demand.meet find).run.run s with ⟨y | ⟨⟩, between⟩
    · rw [run_meetAll_failed h, failsFirst_cons_failed h, Prod.mk.injEq, Except.error.injEq]
    · rw [run_meetAll_met h, failsFirst_cons_met h, ih]

theorem kept_meet {known : σ → KnownTypes} (keeps : Keeps find known) {b : Attribute}
    {type : Option ColumnType} (h : known s b = some type) (demand : Demand) :
    known ((demand.meet find).run.run s).2 b = some type := by
  cases demand with
  | refusal kind => exact h
  | type a =>
    have still := keeps.kept a h
    rcases run : (find a).run.run s with ⟨x | found, after⟩ <;> rw [run] at still
    · rw [run_meet_failed run]
      exact still
    · rw [run_meet_found run]
      exact still

theorem kept_meetAll {known : σ → KnownTypes} (keeps : Keeps find known) {b : Attribute}
    {type : Option ColumnType} (demands : List Demand) (h : known s b = some type) :
    known ((meetAll find demands).run.run s).2 b = some type := by
  induction demands generalizing s with
  | nil => exact h
  | cons demand rest ih =>
    have still := kept_meet keeps h demand
    rcases run : (demand.meet find).run.run s with ⟨x | ⟨⟩, between⟩ <;> rw [run] at still
    · rw [run_meetAll_failed run]
      exact still
    · rw [run_meetAll_met run]
      exact ih still

end Meeting

/-! ### Writing pieces -/

section Writing

variable {find : TypeLookup σ} {known : σ → KnownTypes} (d : Dialect)

theorem run_quoteFor_found {a : Attribute} {s after : σ} {type : Option ColumnType}
    (h : (find a).run.run s = (.ok type, after)) (v : Value) :
    (quoteFor d find v (some a)).run.run s = (.ok (d.literal type v), after) :=
  Effect.run_bind_ok (Effect.run_adapt_ok h RenderError.lookup) _

theorem run_quoteFor_failed {a : Attribute} {s after : σ} {x : LookupError}
    (h : (find a).run.run s = (.error x, after)) (v : Value) :
    (quoteFor d find v (some a)).run.run s = (.error (.lookup x), after) :=
  Effect.run_bind_error (Effect.run_adapt_error h RenderError.lookup) _

theorem text?_mono {small large : KnownTypes}
    (more : ∀ a type, small a = some type → large a = some type) {piece : Piece} {t : String}
    (h : piece.text? d small = some t) : piece.text? d large = some t := by
  cases piece with
  | fixed _ => exact h
  | column _ => exact h
  | refused _ => exact h
  | value v target =>
    cases target with
    | none => exact h
    | some a =>
      obtain ⟨type, known, same⟩ := Option.map_eq_some_iff.mp h
      exact Option.map_eq_some_iff.mpr ⟨type, more a type known, same⟩

theorem run_piece (keeps : Keeps find known) (piece : Piece) (text : String) (s : σ) :
    (∃ after t, (meetAll find piece.demand?.toList).run.run s = (.ok (), after) ∧
      piece.text? d (known after) = some t ∧
      (piece.write d find text).run.run s = (.ok (text ++ t), after)) ∨
    (∃ after x, (meetAll find piece.demand?.toList).run.run s = (.error x, after) ∧
      piece.text? d (known after) = none ∧
      (piece.write d find text).run.run s = (.error x, after)) := by
  cases piece with
  | fixed t => exact Or.inl ⟨s, t, rfl, rfl, rfl⟩
  | column a => exact Or.inl ⟨s, d.qualified a.table a.column, rfl, rfl, rfl⟩
  | refused kind => exact Or.inr ⟨s, .unsupportedItem kind, rfl, rfl, rfl⟩
  | value v target =>
    cases target with
    | none => exact Or.inl ⟨s, d.literal none v, rfl, rfl, rfl⟩
    | some a =>
      rcases run : (find a).run.run s with ⟨x | type, after⟩
      · refine Or.inr ⟨after, .lookup x, ?_, ?_, ?_⟩
        · exact run_meetAll_failed (run_meet_failed run) []
        · show (known after a).map _ = none
          rw [keeps.failed run]
          rfl
        · exact Effect.run_bind_error (run_quoteFor_failed d run v) _
      · refine Or.inl ⟨after, d.literal type v, ?_, ?_, ?_⟩
        · exact run_meetAll_met (run_meet_found run) []
        · show (known after a).map _ = some (d.literal type v)
          rw [keeps.found run]
          rfl
        · exact Effect.run_bind_ok (run_quoteFor_found d run v) _

theorem run_pieces (keeps : Keeps find known) (pieces : List Piece) (text : String) (s : σ) :
    (∃ after composed,
      (meetAll find (pieces.filterMap Piece.demand?)).run.run s = (.ok (), after) ∧
      Piece.textOf? d (known after) pieces = some composed ∧
      (pieces.foldlM (Piece.write d find) text).run.run s = (.ok (text ++ composed), after)) ∨
    (∃ after x,
      (meetAll find (pieces.filterMap Piece.demand?)).run.run s = (.error x, after) ∧
      Piece.textOf? d (known after) pieces = none ∧
      (pieces.foldlM (Piece.write d find) text).run.run s = (.error x, after)) := by
  induction pieces generalizing text s with
  | nil => exact Or.inl ⟨s, "", rfl, rfl, by rw [String.append_empty]; rfl⟩
  | cons piece rest ih =>
    have split : (piece :: rest).filterMap Piece.demand? =
        piece.demand?.toList ++ rest.filterMap Piece.demand? := by
      cases h : piece.demand? <;> simp [h]
    rw [split, meetAll_append, List.foldlM_cons]
    rcases run_piece d keeps piece text s with
      ⟨between, t, met, composed, wrote⟩ | ⟨after, x, failed, nothing, stopped⟩
    · rw [Effect.run_bind_ok met, Effect.run_bind_ok wrote]
      rcases ih (text ++ t) between with
        ⟨after, u, met', composed', wrote'⟩ | ⟨after, x, failed, nothing, stopped⟩
      · -- Later lookups only add to what is known, so the text of this piece stays the same.
        have still : piece.text? d (known after) = some t := by
          refine text?_mono d (fun a type h => ?_) composed
          have kept := kept_meetAll keeps (rest.filterMap Piece.demand?) h
          rwa [met'] at kept
        refine Or.inl ⟨after, t ++ u, met', ?_, ?_⟩
        · rw [Piece.textOf?, still, composed']
          rfl
        · rw [wrote', String.append_assoc]
      · refine Or.inr ⟨after, x, failed, ?_, stopped⟩
        rw [Piece.textOf?, nothing]
        cases piece.text? d (known after) <;> rfl
    · refine Or.inr ⟨after, x, Effect.run_bind_error failed _, ?_,
        Effect.run_bind_error stopped _⟩
      rw [Piece.textOf?, nothing]
      rfl

end Writing

/-! ### The lookups that keep what they found -/

/-- What the columns that are held say of types. -/
def SchemaCache.known (c : SchemaCache σ) : KnownTypes := fun a =>
  (c.held? a.table).map fun columns => (columns.get? a.column).map (·.type)

theorem run_cached (provider : Provider σ) (a : Attribute) (c : SchemaCache σ) :
    (TypeLookup.cached provider a).run.run c =
      (((SchemaCache.columnsFor provider a.table).run.run c).1.map
          fun columns => (columns.get? a.column).map (·.type),
        ((SchemaCache.columnsFor provider a.table).run.run c).2) := by
  rw [TypeLookup.cached, ← map_eq_pure_bind, Effect.run_map, SchemaCache.run_columnFor]
  rcases (SchemaCache.columnsFor provider a.table).run.run c with ⟨_ | _, _⟩ <;> rfl

theorem known_columnsFor (provider : Provider σ) (table : String) (c : SchemaCache σ)
    (a : Attribute) :
    ((SchemaCache.columnsFor provider table).run.run c).2.known a =
      if a.table = table then
        ((SchemaCache.columnsFor provider table).run.run c).1.toOption.map
          fun columns => (columns.get? a.column).map (·.type)
      else c.known a := by
  rw [SchemaCache.known, SchemaCache.held?_columnsFor]
  split <;> rfl

theorem keeps_cached (provider : Provider σ) : Keeps (.cached provider) SchemaCache.known where
  found {a c type after} h := by
    have known := known_columnsFor provider a.table c a
    rcases run : (SchemaCache.columnsFor provider a.table).run.run c with ⟨x | columns, held⟩ <;>
      rw [run_cached, run] at h <;> cases h
    rw [run, if_pos rfl] at known
    exact known
  failed {a c x after} h := by
    have known := known_columnsFor provider a.table c a
    rcases run : (SchemaCache.columnsFor provider a.table).run.run c with ⟨y | columns, held⟩ <;>
      rw [run_cached, run] at h <;> cases h
    rw [run, if_pos rfl] at known
    exact known
  kept {b c type} a h := by
    rw [run_cached, known_columnsFor]
    split
    · next same =>
      obtain ⟨columns, held, found⟩ := Option.map_eq_some_iff.mp h
      rw [same] at held
      rw [SchemaCache.columnsFor_of_held held]
      exact congrArg some found
    · exact h

theorem keeps_none : Keeps .none fun _ _ => some none where
  found h := by cases h; rfl
  failed h := by cases h
  kept _ h := h

/-! ### Rendering -/

/-- An expression is written as far as its demands are met, and then is the text composed from what
is known in the end. -/
theorem run_write_cases {find : TypeLookup σ} {known : σ → KnownTypes} (keeps : Keeps find known)
    (d : Dialect) (e : Expr) (text : String) (s : σ) :
    (∃ after composed, (meetAll find e.demands).run.run s = (.ok (), after) ∧
      e.text? d (known after) = some composed ∧
      (e.write d find text).run.run s = (.ok (text ++ composed), after)) ∨
    (∃ after x, (meetAll find e.demands).run.run s = (.error x, after) ∧
      e.text? d (known after) = none ∧
      (e.write d find text).run.run s = (.error x, after)) := by
  simp only [write_eq_foldlM, text?_eq_textOf?, demands_eq_filterMap]
  exact run_pieces d keeps e.pieces text s

section Outcome

variable {find : TypeLookup σ} {known : σ → KnownTypes} (keeps : Keeps find known) {e : Expr}
  {s after : σ} (d : Dialect) (text : String)

include keeps

theorem run_write_of_met (met : (meetAll find e.demands).run.run s = (.ok (), after)) :
    ∃ composed, e.text? d (known after) = some composed ∧
      (e.write d find text).run.run s = (.ok (text ++ composed), after) := by
  rcases run_write_cases keeps d e text s with
    ⟨reached, composed, run, found, wrote⟩ | ⟨reached, x, run, -, -⟩
  · cases met.symm.trans run
    exact ⟨composed, found, wrote⟩
  · cases met.symm.trans run

theorem run_write_of_failed {x : RenderError}
    (failed : (meetAll find e.demands).run.run s = (.error x, after)) :
    (e.write d find text).run.run s = (.error x, after) := by
  rcases run_write_cases keeps d e text s with
    ⟨reached, composed, run, -, -⟩ | ⟨reached, y, run, -, stopped⟩
  · cases failed.symm.trans run
  · cases failed.symm.trans run
    exact stopped

end Outcome

theorem run_write {find : TypeLookup σ} {known : σ → KnownTypes} (keeps : Keeps find known)
    (d : Dialect) (e : Expr) (text : String) (s : σ) :
    let written := (e.write d find text).run.run s
    written.2 = ((meetAll find e.demands).run.run s).2 ∧
    written.1.toOption = (e.text? d (known written.2)).map (text ++ ·) ∧
    ∀ x after, written = (.error x, after) ↔ FailsFirst find e.demands s x after := by
  simp only [← meetAll_error_iff]
  rcases run_write_cases keeps d e text s with
    ⟨after, composed, met, known, wrote⟩ | ⟨after, x, failed, nothing, stopped⟩
  · rw [met, wrote, known]
    refine ⟨rfl, rfl, fun x after => ?_⟩
    constructor <;> intro h <;> cases h
  · rw [failed, stopped, nothing]
    refine ⟨rfl, rfl, fun y rest => ?_⟩
    constructor <;> intro h <;> cases h <;> rfl

/-- Rendering is the composed text. With a cache, writing succeeds exactly when the text is defined
by the columns held in the end, which are those that its demands, met in order, leave behind; it
fails exactly with the first demand that fails. Without a schema no column is known, and only an
item that no row can have makes it fail. -/
theorem write_refines_composition (d : Dialect) (e : Expr) (text : String) :
    (∀ {σ : Type} (provider : Provider σ) (c : SchemaCache σ),
      let written := (e.write d (.cached provider) text).run.run c
      written.2 = ((meetAll (.cached provider) e.demands).run.run c).2 ∧
      written.1.toOption = (e.text? d written.2.known).map (text ++ ·) ∧
      ∀ x after, written = (.error x, after) ↔
        FailsFirst (.cached provider) e.demands c x after) ∧
    let written := (e.write d .none text).run.run ()
    written.1.toOption = (e.text? d fun _ => some none).map (text ++ ·) ∧
    ∀ x, written = (.error x, ()) ↔ FailsFirst .none e.demands () x () := by
  refine ⟨fun provider c => run_write (keeps_cached provider) d e text c, ?_⟩
  obtain ⟨-, composed, fails⟩ := run_write keeps_none d e text ()
  exact ⟨composed, fun x => fails x ()⟩

end SqlFragment
