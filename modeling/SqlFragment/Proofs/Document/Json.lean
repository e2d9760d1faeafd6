import SqlFragment.Proofs.Binary64.Rounding
import SqlFragment.Proofs.Document.RoundTrip

/-!
# Documents that are JSON

A number of a JSON document is an integer of 64 bits, signed or not, or a finite double. Main
statements: every expression is written as JSON (`Expr.isJson_encode`), and what JSON presents has
numbers for its floats (`floatsFinite_of_represents`).
-/

namespace SqlFragment

open Document Calendar

namespace Document

inductive IsJson : Document → Prop where
  | null : IsJson null
  | bool (b : Bool) : IsJson (bool b)
  | integer {i : Int} (low : -2 ^ 63 ≤ i) (high : i < 2 ^ 64) : IsJson (integer i)
  | float {x : Binary64} (finite : x.isFinite) : IsJson (float x)
  | string (s : String) : IsJson (string s)
  | array {items : List Document} (each : ∀ d ∈ items, IsJson d) : IsJson (array items)
  | object {fields : List (String × Document)} (each : ∀ f ∈ fields, IsJson f.2) :
      IsJson (object fields)

namespace IsJson

variable {d c : Document} {items : List Document} {fields : List (String × Document)} {name : String}

theorem item (json : IsJson (Document.array items)) (member : d ∈ items) : IsJson d := by
  cases json with
  | array each => exact each d member

theorem field (json : IsJson (Document.object fields)) (found : fields.lookup name = some d) :
    IsJson d := by
  cases json with
  | object each =>
    obtain ⟨before, after, rfl, -⟩ := List.lookup_eq_some_iff.mp found
    exact each (name, d) List.mem_append_cons_self

theorem content (json : IsJson (Document.object [(name, c)])) : IsJson c :=
  json.field List.lookup_cons_self

theorem keyed (name : String) (json : IsJson c) : IsJson (Document.object [(name, c)]) :=
  .object (List.forall_mem_singleton.mpr json)

end IsJson

end Document

/-! ### What is written -/

theorem Value.isJson_encode (v : Value) : v.encode.IsJson := by
  cases v with
  | null => exact .string _
  | boolean b => exact .keyed _ (.bool b)
  | integer i =>
    have low := i.le_toInt
    have high := i.toInt_lt
    exact .keyed _ (.integer low (by omega))
  | float x =>
    refine .keyed _ ?_
    split
    · next finite => exact .float finite
    · exact .null
  | text s => exact .keyed _ (.string s)
  | date d => exact .keyed _ (.string _)
  | timestamp t => exact .keyed _ (.string _)

theorem isJson_encodeOption {α : Type} {encode : α → Document} (each : ∀ a, (encode a).IsJson)
    (value : Option α) : (encodeOption encode value).IsJson := by
  cases value with
  | none => exact .null
  | some a => exact each a

theorem Attribute.isJson_encode (a : Attribute) : a.encode.IsJson :=
  .object (List.forall_mem_cons.mpr ⟨.string _, List.forall_mem_singleton.mpr (.string _)⟩)

namespace Expr

theorem isJson_encodeAll {es : List Expr} (each : ∀ e ∈ es, e.encode.IsJson) :
    ∀ d ∈ encodeAll es, d.IsJson := by
  induction es with
  | nil =>
    intro d member
    cases member
  | cons e rest ih =>
    obtain ⟨first, others⟩ := List.forall_mem_cons.mp each
    exact List.forall_mem_cons.mpr ⟨first, ih others⟩

theorem isJson_encode (e : Expr) : e.encode.IsJson := by
  induction e using of_parts with
  | step e below =>
    refine .keyed _ ?_
    cases e with
    | literal v target =>
      refine .object (List.forall_mem_cons.mpr ⟨?_, List.forall_mem_singleton.mpr v.isJson_encode⟩)
      exact isJson_encodeOption Attribute.isJson_encode target
    | raw sql => exact .string sql
    | column a => exact a.isJson_encode
    | arithmetic op left right =>
      have first := below left List.mem_cons_self
      have second := below right (List.mem_cons_of_mem left List.mem_cons_self)
      exact .object (List.forall_mem_cons.mpr ⟨first, List.forall_mem_cons.mpr
        ⟨.string op.name, List.forall_mem_singleton.mpr second⟩⟩)
    | call name arguments distinct output =>
      refine .object (List.forall_mem_cons.mpr ⟨isJson_encodeOption .string output,
        List.forall_mem_cons.mpr ⟨.array (isJson_encodeAll below), ?_⟩⟩)
      exact List.forall_mem_cons.mpr ⟨.bool distinct, List.forall_mem_singleton.mpr (.string name)⟩
    | conjunction children => exact .array (isJson_encodeAll below)
    | negation inner => exact below inner List.mem_cons_self
    | row items columns =>
      refine .array (List.forall_mem_cons.mpr ⟨.array (isJson_encodeAll below),
        List.forall_mem_singleton.mpr (.array (List.forall_mem_map.mpr fun target _ => ?_))⟩)
      exact isJson_encodeOption Attribute.isJson_encode target
    | named inner output =>
      have inside := below inner List.mem_cons_self
      exact .object (List.forall_mem_cons.mpr
        ⟨.string output, List.forall_mem_singleton.mpr inside⟩)

end Expr

/-! ### What is read -/

theorem Document.NumberForm.isFinite {d : Document} {x : Binary64} (form : NumberForm d x)
    (json : d.IsJson) : x.isFinite := by
  cases form with
  | integer i =>
    cases json with
    | integer low high => exact Binary64.ofInt_isFinite (by omega)
  | float x =>
    cases json with
    | float finite => exact finite

theorem Document.ValueForm.floatFinite {l : Layout} {d : Document} {v : Value}
    (form : ValueForm l d v) (json : d.IsJson) : v.FloatFinite := by
  cases form with
  | float number => exact number.isFinite json.content
  | _ => trivial

mutual

theorem floatsFinite_of_represents {l : Layout} {d : Document} {e : Expr} (h : Represents l d e)
    (json : d.IsJson) : e.FloatsFinite := by
  cases h with
  | literalObject found value bound =>
    exact .of_parts_nil (value.floatFinite (json.content.field found)) rfl
  | literalArray value bound =>
    exact .of_parts_nil (value.floatFinite (json.content.item List.mem_cons_self)) rfl
  | raw | column => exact .of_parts_nil trivial rfl
  | arithmeticObject opFound unit leftFound first rightFound second =>
    refine .of_two trivial rfl ?_ ?_
    · exact floatsFinite_of_represents first (json.content.field leftFound)
    · exact floatsFinite_of_represents second (json.content.field rightFound)
  | arithmeticArray unit first second =>
    refine .of_two trivial rfl ?_ ?_
    · exact floatsFinite_of_represents first (json.content.item (by simp))
    · exact floatsFinite_of_represents second (json.content.item (by simp))
  | callObject nameFound visible found each =>
    exact .intro trivial (floatsFinite_of_representsAll each fun d member =>
      (json.content.field found).item member)
  | callArray visible each =>
    exact .intro trivial (floatsFinite_of_representsAll each fun d member =>
      (json.content.item (by simp)).item member)
  | conjunction each =>
    exact .intro trivial (floatsFinite_of_representsAll each fun d member =>
      json.content.item member)
  | negation below =>
    exact .of_part trivial rfl (floatsFinite_of_represents below json.content)
  | row each =>
    exact .intro trivial (floatsFinite_of_representsAll each fun d member =>
      (json.content.item List.mem_cons_self).item member)
  | namedObject found below =>
    exact .of_part trivial rfl (floatsFinite_of_represents below (json.content.field found))
  | namedArray below =>
    have inside := json.content.item List.mem_cons_self
    exact .of_part trivial rfl (floatsFinite_of_represents below inside)

theorem floatsFinite_of_representsAll {l : Layout} {ds : List Document} {es : List Expr}
    (h : RepresentsAll l ds es) (json : ∀ d ∈ ds, d.IsJson) : ∀ e ∈ es, e.FloatsFinite := by
  cases h with
  | nil =>
    intro e member
    cases member
  | cons first rest =>
    obtain ⟨here, others⟩ := List.forall_mem_cons.mp json
    exact List.forall_mem_cons.mpr ⟨floatsFinite_of_represents first here,
      floatsFinite_of_representsAll rest others⟩

end

end SqlFragment
