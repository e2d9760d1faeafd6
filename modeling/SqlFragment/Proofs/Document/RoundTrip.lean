import SqlFragment.Proofs.Calendar.Printed
import SqlFragment.Proofs.Document.Grammar

/-!
# Documents of expressions

The document that an expression is written as is one of its presentations, with dates and timestamps
in ISO layout, provided the expression is well built and its floats have numbers. Since ISO layout is
read, such an expression is read back (`decode_encode`).
-/

namespace SqlFragment

open Document Calendar

/-- A float has a number unless it is infinite or not a number. -/
def Value.FloatFinite : Value → Prop
  | float x => x.isFinite
  | _ => True

instance : DecidablePred Value.FloatFinite
  | .float x => inferInstanceAs (Decidable (x.isFinite = true))
  | .null | .boolean _ | .integer _ | .text _ | .date _ | .timestamp _ => .isTrue trivial

namespace Expr

def FloatFinite : Expr → Prop
  | literal v _ => v.FloatFinite
  | _ => True

instance : DecidablePred FloatFinite
  | literal v _ => inferInstanceAs (Decidable v.FloatFinite)
  | raw _ | column _ | arithmetic .. | call .. | conjunction _ | negation _ | row .. | named .. =>
    .isTrue trivial

def FloatsFinite : Expr → Prop := Everywhere FloatFinite

instance : DecidablePred FloatsFinite := inferInstanceAs (DecidablePred (Everywhere FloatFinite))

end Expr

/-! ### What is written is a presentation -/

namespace Document

theorem optionForm_encode {α : Type} {form : Document → α → Prop} {encode : α → Document}
    (each : ∀ a, form (encode a) a) (value : Option α) :
    OptionForm form (encodeOption encode value) value := by
  cases value with
  | none => exact .none
  | some a => exact .some (each a)

theorem attributeForm_encode (a : Attribute) : AttributeForm a.encode a := .object rfl rfl

theorem targetForm_encode (target : Option Attribute) :
    OptionForm AttributeForm (encodeOption Attribute.encode target) target :=
  optionForm_encode attributeForm_encode target

theorem stringForm_string (s : String) : StringForm (string s) s := rfl

theorem outputForm_encode (output : Option String) :
    OptionForm StringForm (encodeOption string output) output :=
  optionForm_encode stringForm_string output

theorem targetsForm_encode (columns : List (Option Attribute)) :
    List.Forall₂ (OptionForm AttributeForm) (columns.map (encodeOption Attribute.encode))
      columns :=
  List.forall₂_map_left_iff.mpr (List.forall₂_same.mpr fun target _ => targetForm_encode target)

theorem valueForm_encode {v : Value} (finite : v.FloatFinite) : ValueForm .iso v.encode v := by
  cases v with
  | null => exact .null .bare
  | boolean b => exact .boolean b
  | integer i => exact .integer i
  | float x =>
    rw [Value.encode, if_pos (show x.isFinite from finite)]
    exact .float (.float x)
  | text s => exact .text s
  | date d =>
    refine .date ?_
    rw [Date.text, String.toList_ofList]
    exact dateForm_chars d
  | timestamp t =>
    refine .timestamp ?_
    rw [Timestamp.text, String.toList_ofList]
    exact timestampForm_chars t

end Document

namespace Expr

theorem representsAll_encodeAll {es : List Expr} (each : ∀ e ∈ es, Represents .iso e.encode e) :
    RepresentsAll .iso (encodeAll es) es := by
  induction es with
  | nil => exact .nil
  | cons e rest ih =>
    have first := each e List.mem_cons_self
    exact .cons first (ih fun other member => each other (List.mem_cons_of_mem e member))

theorem represents_encode {e : Expr} (built : e.WellBuilt) (finite : e.FloatsFinite) :
    Represents .iso e.encode e := by
  unfold WellBuilt at built
  induction built with
  | @intro e rule _ ih =>
    have below : ∀ p ∈ e.parts, Represents .iso p.encode p :=
      fun p member => ih p member (finite.part member)
    cases e with
    | literal v target =>
      exact .literalObject rfl (valueForm_encode finite.here) (.present rfl (targetForm_encode target))
    | raw sql => exact .raw sql
    | column a => exact .column (attributeForm_encode a)
    | arithmetic op left right =>
      have first := below left List.mem_cons_self
      have second := below right (List.mem_cons_of_mem left List.mem_cons_self)
      exact .arithmeticObject rfl .bare rfl first rfl second
    | call name arguments distinct output =>
      exact .callObject rfl rule rfl (representsAll_encodeAll below) (.present rfl rfl)
        (.present rfl (outputForm_encode output))
    | conjunction children => exact .conjunction (representsAll_encodeAll below) rule
    | negation inner => exact .negation (below inner List.mem_cons_self)
    | row items columns =>
      exact .row (representsAll_encodeAll below) (targetsForm_encode columns) rule.1 rule.2
    | named inner output => exact .namedObject rfl (below inner List.mem_cons_self) rfl

end Expr

/-! ### What is written is read back -/

theorem Document.ValueForm.loose {d : Document} {v : Value} (form : ValueForm .iso d v) :
    ValueForm .loose d v := by
  cases form with
  | null unit => exact .null unit
  | boolean b => exact .boolean b
  | integer i => exact .integer i
  | float number => exact .float number
  | text s => exact .text s
  | date form => exact .date form.loose
  | timestamp form => exact .timestamp form.loose

mutual

theorem Represents.loose {d : Document} {e : Expr} (h : Represents .iso d e) :
    Represents .loose d e := by
  cases h with
  | literalObject found value bound => exact .literalObject found value.loose bound
  | literalArray value bound => exact .literalArray value.loose bound
  | raw sql => exact .raw sql
  | column bound => exact .column bound
  | arithmeticObject opFound unit leftFound first rightFound second =>
    exact .arithmeticObject opFound unit leftFound first.loose rightFound second.loose
  | arithmeticArray unit first second => exact .arithmeticArray unit first.loose second.loose
  | callObject nameFound visible found each distinctForm outputForm =>
    exact .callObject nameFound visible found each.loose distinctForm outputForm
  | callArray visible each rest => exact .callArray visible each.loose rest
  | conjunction each two => exact .conjunction each.loose two
  | negation below => exact .negation below.loose
  | row each targets nonempty same => exact .row each.loose targets nonempty same
  | namedObject found below outputFound => exact .namedObject found below.loose outputFound
  | namedArray below output => exact .namedArray below.loose output

theorem RepresentsAll.loose {ds : List Document} {es : List Expr} (h : RepresentsAll .iso ds es) :
    RepresentsAll .loose ds es := by
  cases h with
  | nil => exact .nil
  | cons first rest => exact .cons first.loose rest.loose

end

namespace Expr

theorem decode_encode {e : Expr} (built : e.WellBuilt) (finite : e.FloatsFinite) :
    decode e.encode = .ok e :=
  decode_eq_ok_iff.mpr (represents_encode built finite).loose

/-- Values at the ends of their ranges, in every kind of expression: the least integer, minus zero,
years below zero and above four digits, a leap second, targets, names and a nested row. -/
def extremes : Expr :=
  conjunction [
    arithmetic .divide
      (literal (.integer (Int64.minValue)) (some ⟨"t", "c"⟩))
      (literal (.float ⟨true, 0, by decide⟩) none),
    negation (call " f" [
      literal (.date ⟨-5, 11, 30, by decide, by decide, by decide⟩) none,
      named (literal (.timestamp ⟨⟨10000, 12, 31, by decide, by decide, by decide⟩,
        ⟨23, 59, 59, 1999999999, by decide, by decide, by decide, by decide⟩⟩) none) "at"]
      true (some "")),
    row [row [literal .null none, literal (.text "'") none] [none, none], raw "", column ⟨"t", "c"⟩,
      literal (.boolean true) none] [some ⟨"t", "c"⟩, none, none, none]]

theorem decode_encode_extremes :
    extremes.WellBuilt ∧ extremes.FloatsFinite ∧ decode extremes.encode = .ok extremes :=
  have built : extremes.WellBuilt := by decide
  have finite : extremes.FloatsFinite := by decide
  ⟨built, finite, decode_encode built finite⟩

end Expr

end SqlFragment
