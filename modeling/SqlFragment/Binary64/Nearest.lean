import SqlFragment.Binary64.Basic
import SqlFragment.Numeral.Decimal

/-!
# The nearest double

Rounding of an exact number to the nearest double; a number midway between two goes to the one with
the even place, and a number midway to the next power of two above the largest double goes to
infinity. Main statement: a number that is a double is not changed (`nearestPlace_units`).
-/

namespace SqlFragment.Binary64

/-- The place nearest to `num / den` least doubles. -/
def nearestPlace (num den : Nat) : Nat :=
  let low := floorPlace (num / den)
  let middle := (units low + units (low + 1)) * den
  let place :=
    if 2 * num < middle then low
    else if middle < 2 * num then low + 1
    else if low % 2 = 0 then low else low + 1
  min place infinityPlace

theorem nearestPlace_le (num den : Nat) : nearestPlace num den ≤ infinityPlace :=
  Nat.min_le_right ..

theorem nearestPlace_units {n den : Nat} (h : n ≤ infinityPlace) (pos : 0 < den) :
    nearestPlace (units n * den) den = n := by
  have below : 2 * (units n * den) < (units n + units (n + 1)) * den := by
    rw [← Nat.mul_assoc]
    exact Nat.mul_lt_mul_of_pos_right (by have := units_lt_succ n; omega) pos
  simp only [nearestPlace, Nat.mul_div_cancel _ pos, floorPlace_units, if_pos below]
  exact Nat.min_eq_left h

/-- The place nearest to `coefficient * 10 ^ exponent`. Numbers above `10 ^ 400` and below
`10 ^ -400` are far outside the range of the finite and the nonzero doubles. -/
def decimalPlace (coefficient : Nat) (exponent : Int) : Nat :=
  if coefficient = 0 then 0
  else if 400 < exponent then infinityPlace
  else if exponent + (coefficient.log2 / 3 + 1 : Nat) < -400 then 0
  else if 0 ≤ exponent then nearestPlace (coefficient * 10 ^ exponent.toNat * 2 ^ leastExponent) 1
  else nearestPlace (coefficient * 2 ^ leastExponent) (10 ^ (-exponent).toNat)

theorem decimalPlace_le (coefficient : Nat) (exponent : Int) :
    decimalPlace coefficient exponent ≤ infinityPlace := by
  unfold decimalPlace
  repeat' split
  all_goals first | exact nearestPlace_le .. | exact Nat.zero_le _ | exact Nat.le_refl _

def ofDecimal (d : Numeral.Decimal) : Binary64 :=
  ⟨d.negative, decimalPlace d.coefficient d.exponent,
    Nat.lt_of_le_of_lt (decimalPlace_le ..) (by decide)⟩

def ofInt (i : Int) : Binary64 := ofDecimal ⟨i < 0, i.natAbs, 0⟩

def read? (s : List Char) : Option Binary64 := (Numeral.Decimal.read? s).map ofDecimal

end SqlFragment.Binary64
