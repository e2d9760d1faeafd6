import SqlFragment.Expr.Basic

/-!
# The parts of expressions

The expressions directly below an expression, the first two children of a conjunction, and the
items of a row with the columns that they are stored in. A property that an expression and all below
it have is `Everywhere`, which can be decided when the property can; one that it or an expression
below it has is `Somewhere`. An argument about all expressions may go from the parts to the whole
(`of_parts`).
-/

namespace SqlFragment.Expr

def parts : Expr → List Expr
  | literal .. => []
  | raw _ => []
  | column _ => []
  | arithmetic _ left right => [left, right]
  | call _ arguments _ _ => arguments
  | conjunction children => children
  | negation inner => [inner]
  | row items _ => items
  | named inner _ => [inner]

def first? : Expr → Option Expr
  | conjunction children => children[0]?
  | _ => none

def second? : Expr → Option Expr
  | conjunction children => children[1]?
  | _ => none

/-- The items of a row, each with its column, as far as there are both. -/
def pairs : Expr → List (Expr × Option Attribute)
  | row items columns => items.zip columns
  | _ => []

theorem sizeOf_part {e part : Expr} (member : part ∈ e.parts) : sizeOf part < sizeOf e := by
  cases e with
  | literal | raw | column => cases member
  | arithmetic op left right =>
    rcases List.mem_cons.mp member with rfl | member
    · simp only [arithmetic.sizeOf_spec]
      omega
    · rw [List.mem_singleton.mp member]
      simp only [arithmetic.sizeOf_spec]
      omega
  | negation | named =>
    rw [List.mem_singleton.mp member]
    simp only [negation.sizeOf_spec, named.sizeOf_spec]
    omega
  | call | conjunction | row =>
    have smaller := List.sizeOf_lt_of_mem member
    simp only [parts] at smaller
    simp only [call.sizeOf_spec, conjunction.sizeOf_spec, row.sizeOf_spec]
    omega

theorem of_parts {motive : Expr → Prop} (step : ∀ e, (∀ p ∈ e.parts, motive p) → motive e)
    (e : Expr) : motive e :=
  step e fun p _ => of_parts step p
termination_by sizeOf e
decreasing_by exact sizeOf_part ‹_›

/-! ### What holds everywhere -/

/-- The expression and all below it have `p`. -/
inductive Everywhere (p : Expr → Prop) : Expr → Prop where
  | intro {e : Expr} (here : p e) (parts : ∀ below ∈ e.parts, Everywhere p below) : Everywhere p e

namespace Everywhere

variable {p : Expr → Prop} {e below left right : Expr}

theorem here (h : Everywhere p e) : p e := by
  cases h with
  | intro here parts => exact here

theorem part (h : Everywhere p e) (member : below ∈ e.parts) : Everywhere p below := by
  cases h with
  | intro here parts => exact parts below member

theorem of_parts_nil (here : p e) (none : e.parts = []) : Everywhere p e := by
  refine .intro here fun part member => ?_
  rw [none] at member
  cases member

theorem of_part (here : p e) (only : e.parts = [below]) (h : Everywhere p below) :
    Everywhere p e := by
  refine .intro here ?_
  rw [only]
  exact List.forall_mem_singleton.mpr h

theorem of_two (here : p e) (both : e.parts = [left, right]) (l : Everywhere p left)
    (r : Everywhere p right) : Everywhere p e := by
  refine .intro here ?_
  rw [both]
  exact List.forall_mem_cons.mpr ⟨l, List.forall_mem_singleton.mpr r⟩

end Everywhere

theorem everywhere_iff_parts {p : Expr → Prop} {e : Expr} :
    Everywhere p e ↔ p e ∧ ∀ part ∈ e.parts, Everywhere p part :=
  ⟨fun h => ⟨h.here, fun _ member => h.part member⟩, fun h => .intro h.1 h.2⟩

/-! ### What holds somewhere -/

/-- The expression or one below it has `p`. -/
inductive Somewhere (p : Expr → Prop) : Expr → Prop where
  | here {e : Expr} (h : p e) : Somewhere p e
  | inside {e part : Expr} (member : part ∈ e.parts) (h : Somewhere p part) : Somewhere p e

theorem somewhere_iff {p : Expr → Prop} {e : Expr} :
    Somewhere p e ↔ p e ∨ ∃ part ∈ e.parts, Somewhere p part := by
  constructor
  · intro h
    cases h with
    | here h => exact Or.inl h
    | inside member h => exact Or.inr ⟨_, member, h⟩
  · rintro (h | ⟨part, member, h⟩)
    · exact .here h
    · exact .inside member h

section Decide

variable (p : Expr → Prop) [DecidablePred p]

mutual

def everywhere (e : Expr) : Bool :=
  decide (p e) && match e with
    | literal .. => true
    | raw _ => true
    | column _ => true
    | arithmetic _ left right => everywhere left && everywhere right
    | call _ arguments _ _ => everywhereAll arguments
    | conjunction children => everywhereAll children
    | negation inner => everywhere inner
    | row items _ => everywhereAll items
    | named inner _ => everywhere inner

def everywhereAll : List Expr → Bool
  | [] => true
  | e :: rest => everywhere e && everywhereAll rest

end

theorem everywhereAll_eq (es : List Expr) : everywhereAll p es = es.all (everywhere p) := by
  induction es with
  | nil => rfl
  | cons e rest ih => rw [everywhereAll, List.all_cons, ih]

theorem everywhere_eq (e : Expr) :
    everywhere p e = (decide (p e) && e.parts.all (everywhere p)) := by
  cases e <;> simp [everywhere, parts, everywhereAll_eq]

theorem everywhere_iff (e : Expr) : everywhere p e ↔ Everywhere p e := by
  induction e using of_parts with
  | step e ih =>
    rw [everywhere_eq, Bool.and_eq_true, decide_eq_true_iff, List.all_eq_true, everywhere_iff_parts]
    exact and_congr_right fun _ => forall₂_congr ih

instance : DecidablePred (Everywhere p) := fun e => decidable_of_iff _ (everywhere_iff p e)

end Decide

end SqlFragment.Expr
