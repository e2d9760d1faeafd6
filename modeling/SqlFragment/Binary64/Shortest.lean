import SqlFragment.Binary64.Nearest

/-!
# The fewest digits that read back

Every finite double is exactly a whole number over `10 ^ leastExponent`. Its short form is the first
of the roundings of that number to 1, 2, … 17 digits that reads back as the double; of the two
neighbours on a grid the nearer one is taken, and a tie goes up. Main statement: the short form of
every double reads back as that double (`decimalPlace_shortest`).
-/

namespace SqlFragment.Binary64

/-- The double at place `n` over `10 ^ leastExponent`. -/
def exactCoefficient (n : Nat) : Nat := units n * 5 ^ leastExponent

/-- `exact` over `10 ^ leastExponent` rounded to `count` of its `length` digits, if that reads back
as the double at place `n`. -/
def candidate? (n exact length count : Nat) : Option (Nat × Int) :=
  let drop := length - count
  let low := exact / 10 ^ drop
  let exponent : Int := (drop : Int) - leastExponent
  let readsBack := fun c => decimalPlace c exponent = n
  let below := readsBack low
  let above := readsBack (low + 1)
  if above ∧ (¬ below ∨ 10 ^ drop ≤ 2 * (exact % 10 ^ drop)) then some (low + 1, exponent)
  else if below then some (low, exponent)
  else none

/-- Coefficient and power of ten of the short form of the double at place `n`. -/
def shortest (n : Nat) : Nat × Int :=
  let exact := exactCoefficient n
  let length := (Numeral.digits exact).length
  ((List.range' 1 17).findSome? (candidate? n exact length)).getD (exact, -leastExponent)

theorem decimalPlace_candidate {n exact length count c : Nat} {e : Int}
    (h : candidate? n exact length count = some (c, e)) : decimalPlace c e = n := by
  simp only [candidate?] at h
  split at h
  · next up =>
    obtain ⟨rfl, rfl⟩ := Prod.mk.inj (Option.some.inj h)
    exact up.1
  · split at h
    · next down =>
      obtain ⟨rfl, rfl⟩ := Prod.mk.inj (Option.some.inj h)
      exact down
    · exact absurd h (by simp)

theorem exactCoefficient_log2 {n : Nat} (h : n ≠ 0) :
    2 * leastExponent ≤ (exactCoefficient n).log2 := by
  have large : 5 ^ leastExponent ≤ exactCoefficient n := by
    rw [exactCoefficient]
    exact Nat.le_mul_of_pos_left _ (units_pos h)
  have power : 2 ^ (2 * leastExponent) ≤ 5 ^ leastExponent := by
    rw [Nat.pow_mul]
    exact Nat.pow_le_pow_left (by decide) _
  have nonzero : exactCoefficient n ≠ 0 :=
    Nat.ne_of_gt (Nat.lt_of_lt_of_le (Nat.pow_pos (by decide)) large)
  exact (Nat.le_log2 nonzero).mpr (Nat.le_trans power large)

theorem decimalPlace_exact {n : Nat} (h : n ≤ infinityPlace) :
    decimalPlace (exactCoefficient n) (-leastExponent) = n := by
  by_cases zero : n = 0
  · subst zero
    have none : exactCoefficient 0 = 0 := by
      rw [exactCoefficient, units_small (by decide), Nat.zero_mul]
    rw [none, decimalPlace, if_pos rfl]
  · have log := exactCoefficient_log2 zero
    have nonzero : exactCoefficient n ≠ 0 := by
      intro same
      rw [same] at log
      exact absurd log (by decide)
    have power : exactCoefficient n * 2 ^ leastExponent = units n * 10 ^ leastExponent := by
      rw [exactCoefficient, Nat.mul_assoc, ← Nat.mul_pow]
    have least : leastExponent = 1074 := rfl
    rw [decimalPlace, if_neg nonzero, if_neg (by omega), if_neg (by omega), if_neg (by omega),
      power, Int.neg_neg, Int.toNat_natCast]
    exact nearestPlace_units h (Nat.pow_pos (by decide))

theorem decimalPlace_shortest {n : Nat} (h : n ≤ infinityPlace) :
    decimalPlace (shortest n).1 (shortest n).2 = n := by
  rw [shortest]
  generalize List.range' 1 17 = counts
  cases found : counts.findSome? (candidate? n (exactCoefficient n)
      (Numeral.digits (exactCoefficient n)).length) with
  | none =>
    rw [Option.getD_none]
    exact decimalPlace_exact h
  | some pair =>
    rw [Option.getD_some]
    obtain ⟨count, -, hit⟩ := List.exists_of_findSome?_eq_some found
    exact decimalPlace_candidate hit

end SqlFragment.Binary64
