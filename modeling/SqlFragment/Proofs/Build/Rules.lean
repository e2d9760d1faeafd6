import SqlFragment.Expr.Build
import SqlFragment.Expr.Parts

/-!
# The rules of construction

What each kind of expression has to keep, and what that means at every depth. Each constructor that
can refuse checks the rule of what it builds: it builds it from the parts as they were given if that
keeps the rule, and refuses with the cause if not (`conjunctionOf_eq_checked` and the statements
beside it).
-/

namespace SqlFragment.Expr

/-- The rule of the expression's own kind. -/
def KeepsRule : Expr → Prop
  | call name _ _ _ => ∃ c ∈ name.toList, Text.isBlank c = false
  | conjunction children => 2 ≤ children.length
  | row items columns => items ≠ [] ∧ items.length = columns.length
  | _ => True

theorem allBlank_eq_false_iff {name : String} :
    Text.allBlank name = false ↔ ∃ c ∈ name.toList, Text.isBlank c = false := by
  rw [Text.allBlank, List.all_eq_false]
  simp only [Bool.not_eq_true]

instance : DecidablePred KeepsRule
  | call name _ _ _ => decidable_of_iff (Text.allBlank name = false) allBlank_eq_false_iff
  | conjunction children => inferInstanceAs (Decidable (2 ≤ children.length))
  | row items columns => inferInstanceAs (Decidable (items ≠ [] ∧ items.length = columns.length))
  | literal .. | raw _ | column _ | arithmetic .. | negation _ | named .. => .isTrue trivial

/-- The expression and all below it keep their rules. -/
def WellBuilt : Expr → Prop := Everywhere KeepsRule

instance : DecidablePred WellBuilt := inferInstanceAs (DecidablePred (Everywhere KeepsRule))

/-! ### What the constructors build and refuse -/

/-- The expression if it keeps its rule, and else the cause. -/
def checked (e : Expr) (cause : ConstructionError) : Except ConstructionError Expr :=
  if e.KeepsRule then .ok e else .error cause

theorem checked_eq_ok_iff {e made : Expr} {cause : ConstructionError} :
    e.checked cause = .ok made ↔ e.KeepsRule ∧ made = e := by
  unfold checked
  split
  · next keeps =>
    rw [Except.ok.injEq, and_iff_right keeps, eq_comm]
  · next breaks =>
    constructor
    · intro h
      cases h
    · rintro ⟨keeps, -⟩
      exact absurd keeps breaks

theorem conjunctionOf_eq_checked (children : List Expr) :
    conjunctionOf children = (conjunction children).checked (.tooFewChildren children.length) := by
  unfold conjunctionOf checked
  split
  · next short =>
    rw [if_neg]
    exact Nat.not_le_of_lt short
  · next long =>
    rw [if_pos]
    exact Nat.le_of_not_lt long

theorem rowOf_eq_checked (items : List Expr) (columns : List (Option Attribute)) :
    rowOf items columns = (row items columns).checked
      (if items = [] then .emptyRow else .lengthMismatch items.length columns.length) := by
  unfold rowOf checked
  split
  · next empty =>
    rw [if_neg]
    rintro ⟨some, -⟩
    exact absurd empty some
  · next some =>
    split
    · next differ =>
      rw [if_neg]
      rintro ⟨-, same⟩
      exact absurd same differ
    · next same =>
      rw [if_pos]
      exact ⟨some, Decidable.not_not.mp same⟩

theorem unboundRow_eq_checked (items : List Expr) :
    unboundRow items = (row items (items.map fun _ => none)).checked .emptyRow := by
  rw [unboundRow, rowOf_eq_checked]
  by_cases empty : items = []
  · rw [if_pos empty]
  · have keeps : (row items (items.map fun _ => none)).KeepsRule :=
      ⟨empty, (List.length_map _).symm⟩
    rw [checked, checked, if_pos keeps, if_pos keeps]

theorem callOf_eq_checked (name : String) (arguments : List Expr) :
    callOf name arguments = (call name arguments false none).checked .emptyFunctionName := by
  unfold callOf checked
  split
  · next blank =>
    rw [if_neg]
    intro visible
    rw [allBlank_eq_false_iff.mpr visible] at blank
    cases blank
  · next visible =>
    rw [if_pos]
    exact allBlank_eq_false_iff.mp (Bool.not_eq_true _ ▸ visible)

section Built

variable {children items arguments : List Expr} {columns : List (Option Attribute)} {name : String}
  {e : Expr}

theorem conjunctionOf_eq_ok_iff :
    conjunctionOf children = .ok e ↔ 2 ≤ children.length ∧ e = conjunction children := by
  rw [conjunctionOf_eq_checked]
  exact checked_eq_ok_iff

theorem rowOf_eq_ok_iff :
    rowOf items columns = .ok e ↔
      (items ≠ [] ∧ items.length = columns.length) ∧ e = row items columns := by
  rw [rowOf_eq_checked]
  exact checked_eq_ok_iff

theorem callOf_eq_ok_iff :
    callOf name arguments = .ok e ↔
      (∃ c ∈ name.toList, Text.isBlank c = false) ∧ e = call name arguments false none := by
  rw [callOf_eq_checked]
  exact checked_eq_ok_iff

end Built

end SqlFragment.Expr
