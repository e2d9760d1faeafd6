import SqlFragment.Proofs.Dialect.Numbers
import SqlFragment.Proofs.Lookup.Dependence

namespace SqlFragment

/-- The name is bare in both dialects, a plain word that neither reserves, or quoted in both. -/
def IsSharedName (name : String) : Prop :=
  (isPlainWord name.toList ∧ name ∉ Dialect.postgres.keywords ∧ name ∉ Dialect.sqlite.keywords) ∨
    ¬ isPlainWord name.toList ∨
    (name ∈ Dialect.postgres.keywords ∧ name ∈ Dialect.sqlite.keywords)

/-- No boolean, and no number but a finite one. -/
def Value.IsShared : Value → Prop
  | .boolean _ => False
  | .float x => x.isFinite
  | _ => True

/-- The rule for a node by itself; what is below it does not count. -/
def Expr.IsShared : Expr → Prop
  | .literal v _ => v.IsShared
  | .column a => IsSharedName a.table ∧ IsSharedName a.column
  | _ => True

instance : DecidablePred IsSharedName := fun _ => inferInstanceAs (Decidable (_ ∨ _ ∨ _))

instance : DecidablePred Value.IsShared
  | .boolean _ => .isFalse id
  | .float x => inferInstanceAs (Decidable (x.isFinite = true))
  | .null | .integer _ | .text _ | .date _ | .timestamp _ => .isTrue trivial

instance : DecidablePred Expr.IsShared
  | .literal v _ => inferInstanceAs (Decidable v.IsShared)
  | .column a => inferInstanceAs (Decidable (IsSharedName a.table ∧ IsSharedName a.column))
  | .raw _ | .arithmetic .. | .call .. | .conjunction _ | .negation _ | .row .. | .named .. =>
    .isTrue trivial

/-! ### Names and values -/

theorem isBare_of_shared {name : String} (shared : IsSharedName name) (d other : Dialect) :
    d.isBare name = other.isBare name := by
  have same : Dialect.postgres.isBare name = Dialect.sqlite.isBare name := by
    unfold Dialect.isBare
    rcases shared with ⟨plain, free, free'⟩ | odd | ⟨reserved, reserved'⟩
    · simp [plain, free, free']
    · simp [odd]
    · simp [reserved, reserved']
  cases d <;> cases other <;> simp [same]

theorem identifier_of_shared {name : String} (shared : IsSharedName name) (d other : Dialect) :
    d.identifier name = other.identifier name := by
  unfold Dialect.identifier
  rw [isBare_of_shared shared d other]

theorem textLiteral_of_ne_boolean {target : Option ColumnType} (other : target ≠ some .boolean)
    (d d' : Dialect) (s : String) : d.textLiteral target s = d'.textLiteral target s := by
  cases target with
  | none => rfl
  | some type =>
    cases type with
    | boolean => exact absurd rfl other
    | _ => rfl

theorem literal_of_shared {v : Value} (shared : v.IsShared) {target : Option ColumnType}
    (other : target ≠ some .boolean) (d d' : Dialect) : d.literal target v = d'.literal target v := by
  cases v with
  | boolean b => exact shared.elim
  | float x =>
    have finite : x.isFinite := shared
    rw [literal_float d finite, literal_float d' finite]
  | text s => exact textLiteral_of_ne_boolean other d d' s
  | integer i => rw [literal_integer d i other, literal_integer d' i other]
  | null | date | timestamp => rfl

/-! ### Texts -/

def Piece.IsShared : Piece → Prop
  | column a => IsSharedName a.table ∧ IsSharedName a.column
  | value v _ => v.IsShared
  | _ => True

theorem Piece.text?_of_shared {piece : Piece} (shared : piece.IsShared) {known : KnownTypes}
    (other : ∀ v a, piece = value v (some a) → known a ≠ some (some .boolean)) (d d' : Dialect) :
    piece.text? d known = piece.text? d' known := by
  cases piece with
  | fixed t => rfl
  | refused kind => rfl
  | column a =>
    have table := identifier_of_shared shared.1 d d'
    have column := identifier_of_shared shared.2 d d'
    simp only [text?, Dialect.qualified, table, column]
  | value v target =>
    have same {type : Option ColumnType} (different : type ≠ some .boolean) :
        d.literal type v = d'.literal type v := literal_of_shared shared different d d'
    cases target with
    | none =>
      have untyped : (none : Option ColumnType) ≠ some .boolean := nofun
      exact congrArg some (same untyped)
    | some a =>
      cases found : known a with
      | none => simp only [text?, literalText?, found, Option.map_none]
      | some type =>
        have different : type ≠ some .boolean := by
          intro boolean
          exact other v a rfl (by rw [found, boolean])
        simp only [text?, literalText?, found, Option.map_some, same different]

theorem text?_of_shared {e : Expr} (shared : e.Everywhere Expr.IsShared) {known : KnownTypes}
    (other : ∀ a, .type a ∈ e.demands → known a ≠ some (some .boolean)) (d d' : Dialect) :
    e.text? d known = e.text? d' known := by
  have pieces : ∀ piece ∈ e.pieces, piece.IsShared :=
    pieces_of_everywhere (fun _ => trivial) (fun _ => trivial) (fun _ h => h) (fun _ _ _ h => h)
      shared
  rw [text?_eq_textOf?, text?_eq_textOf?]
  apply Piece.textOf?_congr
  intro piece member
  apply Piece.text?_of_shared (pieces piece member)
  rintro v a rfl
  exact other a (mem_demands_of_piece member)

/-- From one state of a cache both dialects make the same calls and leave the same state behind, and
one fails exactly where the other does, with the same error. They write the same text if no literal
is a boolean or written for a column of booleans, no number is infinite or "not a number", and every
name of a table or a column is bare in both or quoted in both. -/
theorem dialects_render_alike {σ : Type} (provider : Provider σ) (e : Expr)
    (c : SchemaCache (σ × List Call)) :
    let postgres := (e.renderCached .postgres provider.recorded).run.run c
    let sqlite := (e.renderCached .sqlite provider.recorded).run.run c
    postgres.2.source.2 = sqlite.2.source.2 ∧
    postgres.2 = sqlite.2 ∧
    (∀ x, postgres.1 = .error x ↔ sqlite.1 = .error x) ∧
    (e.Everywhere Expr.IsShared →
      (∀ a, .type a ∈ e.demands → postgres.2.known a ≠ some (some .boolean)) →
      postgres.1 = sqlite.1) := by
  have keeps := keeps_cached provider.recorded
  unfold Expr.renderCached Expr.render
  rcases met : (meetAll (.cached provider.recorded) e.demands).run.run c with ⟨x | ⟨⟩, after⟩
  · rw [run_write_of_failed keeps .postgres "" met, run_write_of_failed keeps .sqlite "" met]
    exact ⟨rfl, rfl, fun _ => Iff.rfl, fun _ _ => rfl⟩
  · obtain ⟨text, composed, wrote⟩ := run_write_of_met keeps .postgres "" met
    obtain ⟨text', composed', wrote'⟩ := run_write_of_met keeps .sqlite "" met
    rw [wrote, wrote']
    refine ⟨rfl, rfl, fun x => ?_, fun shared other => ?_⟩
    · constructor <;> intro h <;> cases h
    · rw [text?_of_shared shared other .postgres .sqlite, composed'] at composed
      cases composed
      rfl

/-- Names that both dialects quote, as "Order" and "all", do not set them apart. -/
theorem dialects_render_alike_names :
    let s : Schema := .ofTables
      [.ofColumns "t" [⟨"a", .integer, none, true, none⟩, ⟨"b", .text, none, true, none⟩]]
    let c : SchemaCache (Schema × List Call) := .fresh (s, [])
    let e : Expr := .conjunction
      [.arithmetic .add (.column ⟨"orders", "all"⟩) (.literal (.float ⟨true, 0, by decide⟩) none),
        .named (.column ⟨"Order", "total"⟩) "x", .literal (.text " 7 ") (some ⟨"t", "a"⟩),
        .row [.literal (.integer 3) none] [some ⟨"t", "b"⟩]]
    let postgres := (e.renderCached .postgres Schema.provider.recorded).run.run c
    let sqlite := (e.renderCached .sqlite Schema.provider.recorded).run.run c
    e.Everywhere Expr.IsShared ∧
    (∀ a, .type a ∈ e.demands → postgres.2.known a ≠ some (some .boolean)) ∧
    postgres.1 = sqlite.1 := by
  intro s c e postgres sqlite
  have shared : e.Everywhere Expr.IsShared := by decide
  have other : ∀ a, .type a ∈ e.demands → postgres.2.known a ≠ some (some .boolean) := by
    intro a member
    have listed : e.demands = [.type ⟨"t", "a"⟩, .type ⟨"t", "b"⟩] := rfl
    simp only [listed, List.mem_cons, List.not_mem_nil, or_false, Demand.type.injEq] at member
    rcases member with rfl | rfl
    · have type : postgres.2.known ⟨"t", "a"⟩ = some (some .integer) := rfl
      simp [type]
    · have type : postgres.2.known ⟨"t", "b"⟩ = some (some .text) := rfl
      simp [type]
  exact ⟨shared, other, (dialects_render_alike Schema.provider e c).2.2.2 shared other⟩

end SqlFragment
