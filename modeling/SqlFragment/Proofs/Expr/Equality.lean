import SqlFragment.Proofs.Render.Grouping

/-!
# What equality of expressions means

Floats are compared as numbers, and all else as data. In the canonical form of an expression no zero
has a sign; two expressions are the same exactly if no float in them is "not a number" and their
canonical forms are identical (`Expr.same_iff`). So equality is symmetric and transitive, and
renderings do not tell equal expressions apart unless there is a zero in them
(`same_is_congruence`).
-/

namespace SqlFragment

/-! ### Canonical forms -/

namespace Binary64

/-- The double that stands for the number: zero has no sign. -/
def canonical (x : Binary64) : Binary64 := { x with negative := x.negative && !x.isZero }

variable {x y : Binary64}

theorem isZero_canonical (x : Binary64) : x.canonical.isZero = x.isZero := rfl

theorem isNaN_canonical (x : Binary64) : x.canonical.isNaN = x.isNaN := rfl

theorem canonical_of_not_isZero (other : x.isZero = false) : x.canonical = x := by
  rw [canonical, other, Bool.not_false, Bool.and_true]

theorem isNaN_of_isZero (isZero : x.isZero) : x.isNaN = false := by
  have place : x.magnitude = 0 := of_decide_eq_true isZero
  rw [isNaN, place]
  decide

theorem canonical_eq_iff : x.canonical = y.canonical ↔ x = y ∨ (x.isZero ∧ y.isZero) := by
  constructor
  · intro alike
    have zeros : x.isZero = y.isZero := by rw [← isZero_canonical x, alike, isZero_canonical y]
    cases same : x.isZero with
    | true => exact Or.inr ⟨rfl, zeros ▸ same⟩
    | false =>
      rw [canonical_of_not_isZero same, canonical_of_not_isZero (zeros ▸ same)] at alike
      exact Or.inl alike
  · rintro (rfl | ⟨first, second⟩)
    · rfl
    · have here : x.magnitude = 0 := of_decide_eq_true first
      have there : y.magnitude = 0 := of_decide_eq_true second
      simp only [canonical, first, second, here, there, Bool.not_true, Bool.and_false]

theorem sameNumber_iff : x.sameNumber y ↔ x.isNaN = false ∧ x.canonical = y.canonical := by
  rw [canonical_eq_iff, sameNumber]
  simp only [Bool.and_eq_true, Bool.or_eq_true, Bool.not_eq_true', beq_iff_eq]
  constructor
  · rintro ⟨⟨number, -⟩, alike⟩
    exact ⟨number, alike⟩
  · rintro ⟨number, alike⟩
    refine ⟨⟨number, ?_⟩, alike⟩
    rcases alike with rfl | ⟨-, zero⟩
    · exact number
    · exact isNaN_of_isZero zero

end Binary64

namespace Value

def canonical : Value → Value
  | float x => float x.canonical
  | v => v

def NoFloat (sort : Binary64 → Bool) : Value → Prop
  | float x => sort x = false
  | _ => True

variable {sort : Binary64 → Bool}

instance : DecidablePred (NoFloat sort)
  | float x => inferInstanceAs (Decidable (sort x = false))
  | null | boolean _ | integer _ | text _ | date _ | timestamp _ => .isTrue trivial

theorem noFloat_canonical (keeps : ∀ x, sort x.canonical = sort x) (v : Value) :
    v.canonical.NoFloat sort ↔ v.NoFloat sort := by
  cases v with
  | float x =>
    show sort x.canonical = false ↔ sort x = false
    rw [keeps]
  | _ => rfl

theorem canonical_of_noZero {v : Value} (none : v.NoFloat Binary64.isZero) : v.canonical = v := by
  cases v with
  | float x => exact congrArg float (Binary64.canonical_of_not_isZero none)
  | _ => rfl

theorem same_iff {v w : Value} :
    v.same w ↔ v.NoFloat Binary64.isNaN ∧ v.canonical = w.canonical := by
  cases v with
  | float x =>
    cases w with
    | float y =>
      rw [canonical, canonical, float.injEq]
      exact Binary64.sameNumber_iff
    | _ => simp [same, canonical]
  | _ => cases w <;> simp [same, canonical, NoFloat]

end Value

namespace Expr

mutual

def canonical : Expr → Expr
  | literal v target => literal v.canonical target
  | raw sql => raw sql
  | column a => column a
  | arithmetic op l r => arithmetic op l.canonical r.canonical
  | call name arguments distinct output => call name (canonicalAll arguments) distinct output
  | conjunction children => conjunction (canonicalAll children)
  | negation inner => negation inner.canonical
  | row items columns => row (canonicalAll items) columns
  | named inner output => named inner.canonical output

def canonicalAll : List Expr → List Expr
  | [] => []
  | e :: rest => e.canonical :: canonicalAll rest

end

theorem canonicalAll_eq_map (es : List Expr) : canonicalAll es = es.map canonical := by
  induction es with
  | nil => rfl
  | cons e rest ih => rw [canonicalAll, List.map_cons, ih]

theorem parts_canonical (e : Expr) : e.canonical.parts = e.parts.map canonical := by
  cases e with
  | call | conjunction | row => exact canonicalAll_eq_map _
  | _ => rfl

/-! ### Floats in an expression -/

/-- The expression itself is not a float of the given sort. -/
def NoFloatHere (sort : Binary64 → Bool) : Expr → Prop
  | literal v _ => v.NoFloat sort
  | _ => True

variable {sort : Binary64 → Bool} {a b c e : Expr}

instance : DecidablePred (NoFloatHere sort)
  | literal v _ => inferInstanceAs (Decidable (v.NoFloat sort))
  | raw _ | column _ | arithmetic .. | call .. | conjunction _ | negation _ | row .. | named .. =>
    .isTrue trivial

/-- No float in the expression is of the given sort. -/
def NoFloat (sort : Binary64 → Bool) : Expr → Prop := Everywhere (NoFloatHere sort)

instance : DecidablePred (NoFloat sort) := inferInstanceAs (DecidablePred (Everywhere _))

theorem noFloat_iff : e.NoFloat sort ↔ e.NoFloatHere sort ∧ ∀ p ∈ e.parts, p.NoFloat sort :=
  everywhere_iff_parts

theorem noFloatHere_canonical (keeps : ∀ x, sort x.canonical = sort x) (e : Expr) :
    e.canonical.NoFloatHere sort ↔ e.NoFloatHere sort := by
  cases e with
  | literal v target => exact v.noFloat_canonical keeps
  | _ => rfl

theorem noFloat_canonical (keeps : ∀ x, sort x.canonical = sort x) (e : Expr) :
    e.canonical.NoFloat sort ↔ e.NoFloat sort := by
  induction e using of_parts with
  | step e ih =>
    rw [noFloat_iff, noFloat_iff, noFloatHere_canonical keeps, parts_canonical, List.forall_mem_map]
    exact and_congr_right fun _ => forall₂_congr ih

theorem noFloat_congr (keeps : ∀ x, sort x.canonical = sort x) (alike : a.canonical = b.canonical) :
    a.NoFloat sort ↔ b.NoFloat sort := by
  rw [← noFloat_canonical keeps a, alike, noFloat_canonical keeps b]

theorem canonicalAll_of_parts {es : List Expr} (each : ∀ e ∈ es, e.canonical = e) :
    canonicalAll es = es := by
  rw [canonicalAll_eq_map]
  exact (List.map_congr_left each).trans (List.map_id' es)

theorem canonical_of_noZero (none : e.NoFloat Binary64.isZero) : e.canonical = e := by
  unfold NoFloat at none
  induction none with
  | @intro e here _ ih =>
    cases e with
    | literal v target => rw [canonical, Value.canonical_of_noZero here]
    | raw | column => rfl
    | arithmetic op l r =>
      obtain ⟨left, right⟩ := List.forall_mem_cons.mp ih
      rw [canonical, left, List.forall_mem_singleton.mp right]
    | call | conjunction | row =>
      rw [canonical]
      congr 1
      exact canonicalAll_of_parts ih
    | negation | named => rw [canonical, List.forall_mem_singleton.mp ih]

/-! ### Equality -/

mutual

theorem same_iff (e f : Expr) :
    e.same f ↔ e.NoFloat Binary64.isNaN ∧ e.canonical = f.canonical := by
  rw [noFloat_iff]
  -- Where the kinds differ, so do the canonical forms.
  cases e with
  | literal v target =>
    cases f with
    | literal w other => simp [same, canonical, NoFloatHere, parts, Value.same_iff, and_assoc]
    | _ => simp [same, canonical]
  | raw sql => cases f <;> simp [same, canonical, NoFloatHere, parts]
  | column a => cases f <;> simp [same, canonical, NoFloatHere, parts]
  | arithmetic op l r =>
    cases f with
    | arithmetic q m s =>
      simp only [same, canonical, NoFloatHere, parts, Bool.and_eq_true, beq_iff_eq, same_iff l m,
        same_iff r s, arithmetic.injEq, List.forall_mem_cons]
      grind
    | _ => simp [same, canonical]
  | call name arguments distinct output =>
    cases f with
    | call other bs d o =>
      simp only [same, canonical, NoFloatHere, parts, Bool.and_eq_true, beq_iff_eq,
        sameAll_iff arguments bs, call.injEq]
      grind
    | _ => simp [same, canonical]
  | conjunction children =>
    cases f with
    | conjunction others => simp [same, canonical, NoFloatHere, parts, sameAll_iff children others]
    | _ => simp [same, canonical]
  | negation inner =>
    cases f with
    | negation other => simp [same, canonical, NoFloatHere, parts, same_iff inner other]
    | _ => simp [same, canonical]
  | row items columns =>
    cases f with
    | row others targets =>
      simp [same, canonical, NoFloatHere, parts, sameAll_iff items others, and_assoc]
    | _ => simp [same, canonical]
  | named inner output =>
    cases f with
    | named other name =>
      simp [same, canonical, NoFloatHere, parts, same_iff inner other, and_assoc]
    | _ => simp [same, canonical]

theorem sameAll_iff (es fs : List Expr) :
    sameAll es fs ↔ (∀ e ∈ es, e.NoFloat Binary64.isNaN) ∧ canonicalAll es = canonicalAll fs := by
  cases es with
  | nil => cases fs <;> simp [sameAll, canonicalAll]
  | cons e rest =>
    cases fs with
    | nil => simp [sameAll, canonicalAll]
    | cons f others =>
      simp only [sameAll, canonicalAll, Bool.and_eq_true, same_iff e f, sameAll_iff rest others,
        List.forall_mem_cons, List.cons.injEq]
      exact and_and_and_comm

end

theorem same_symm (h : a.same b) : b.same a := by
  obtain ⟨numbers, alike⟩ := (same_iff a b).mp h
  have others := (noFloat_congr Binary64.isNaN_canonical alike).mp numbers
  exact (same_iff b a).mpr ⟨others, alike.symm⟩

theorem same_trans (first : a.same b) (second : b.same c) : a.same c := by
  obtain ⟨numbers, alike⟩ := (same_iff a b).mp first
  obtain ⟨-, further⟩ := (same_iff b c).mp second
  exact (same_iff a c).mpr ⟨numbers, alike.trans further⟩

theorem same_self_iff : a.same a ↔ a.NoFloat Binary64.isNaN := by
  rw [same_iff, and_iff_left rfl]

theorem eq_of_same (h : a.same b) (none : a.NoFloat Binary64.isZero) : a = b := by
  obtain ⟨-, alike⟩ := (same_iff a b).mp h
  have others := (noFloat_congr Binary64.isZero_canonical alike).mp none
  rw [← canonical_of_noZero none, alike, canonical_of_noZero others]

end Expr

/-- Equality of expressions is symmetric and transitive, and holds between an expression and itself
exactly if no float in it is "not a number". What is equal to an expression without a zero is that
expression, and no rendering tells the two apart. -/
theorem same_is_congruence (a b c : Expr) :
    (a.same b → b.same a) ∧ (a.same b → b.same c → a.same c) ∧
    (a.same a ↔ a.NoFloat Binary64.isNaN) ∧
    (a.same b → a.NoFloat Binary64.isZero → a = b ∧ ∀ d, RendersAlike d a b) := by
  refine ⟨Expr.same_symm, Expr.same_trans, Expr.same_self_iff, fun same none => ?_⟩
  have identical := Expr.eq_of_same same none
  exact ⟨identical, rendersAlike_of_pieces (congrArg Expr.pieces identical)⟩

/-- With the two zeros, with "not a number", and with one, in a literal and in a row. -/
theorem same_is_congruence_zeros :
    let tree (x : Binary64) : Expr := .conjunction [.negation (.literal (.float x) none),
      .row [.literal (.float x) none, .raw "now"] [some ⟨"t", "c"⟩, none]]
    let zero := tree ⟨false, 0, by decide⟩
    let minusZero := tree ⟨true, 0, by decide⟩
    let one := tree ⟨false, 1023 * 2 ^ 52, by decide⟩
    let noNumber := tree ⟨false, Binary64.infinityPlace + 1, by decide⟩
    minusZero.same zero ∧ zero.same minusZero ∧ minusZero.same minusZero ∧
    ¬ noNumber.same noNumber ∧
    one.same one ∧ one.NoFloat Binary64.isZero ∧ ∀ d, RendersAlike d one one := by
  intro tree zero minusZero one noNumber
  have alike : minusZero.same zero := by decide
  obtain ⟨symm, trans, -, -⟩ := same_is_congruence minusZero zero minusZero
  obtain ⟨-, -, self, -⟩ := same_is_congruence noNumber noNumber noNumber
  obtain ⟨-, -, -, identical⟩ := same_is_congruence one one one
  have itself : one.same one := by decide
  have nonzero : one.NoFloat Binary64.isZero := by decide
  exact ⟨alike, symm alike, trans alike (symm alike), fun same => absurd (self.mp same) (by decide),
    itself, nonzero, (identical itself nonzero).2⟩

-- The two zeros are equal, and are written with their signs.
example :
    let zero : Expr := .literal (.float ⟨false, 0, by decide⟩) none
    let minusZero : Expr := .literal (.float ⟨true, 0, by decide⟩) none
    zero.same minusZero ∧ zero.renderPlain .postgres = .ok "0.0" ∧
      minusZero.renderPlain .postgres = .ok "-0.0" :=
  ⟨rfl, rfl, rfl⟩

end SqlFragment
