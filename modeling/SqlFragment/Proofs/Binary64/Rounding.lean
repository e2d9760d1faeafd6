import SqlFragment.Binary64.Nearest

/-!
# Rounding to the nearest double

The place that a decimal number is rounded to depends on the number alone, not on the digits that it
is written with, and is that of a finite double exactly below `overflow`. Main statements:
`decimalPlace_shift`, `ofDecimal_isFinite_iff`.
-/

namespace SqlFragment.Binary64

/-- The middle of the largest double and `2 ^ 1024`; from here on numbers are rounded to infinity. -/
def overflow : Nat := 2 ^ 1024 - 2 ^ 970

theorem units_le_units {m n : Nat} (h : m ≤ n) : units m ≤ units n := by
  induction h with
  | refl => exact Nat.le_refl _
  | step _ ih => exact Nat.le_trans ih (Nat.le_of_lt (units_lt_succ _))

theorem floorPlace_bounds (q : Nat) : units (floorPlace q) ≤ q ∧ q < units (floorPlace q + 1) := by
  by_cases small : q < 2 ^ 53
  · -- here a place and its magnitude are the same number
    have place : floorPlace q = q := by
      have place := floorPlace_units q
      rwa [units_small small] at place
    have next := units_lt_succ q
    rw [units_small small] at next
    rw [place, units_small small]
    exact ⟨Nat.le_refl q, next⟩
  · have nonzero : q ≠ 0 := by omega
    have pos := Nat.two_pow_pos (q.log2 - 52)
    have log : 53 ≤ q.log2 := (Nat.le_log2 nonzero).mpr (Nat.le_of_not_lt small)
    have low : 2 ^ 52 ≤ q / 2 ^ (q.log2 - 52) := by
      rw [Nat.le_div_iff_mul_le pos, ← Nat.pow_add, Nat.add_sub_cancel' (by omega)]
      exact Nat.log2_self_le nonzero
    have high : q / 2 ^ (q.log2 - 52) < 2 ^ 53 := by
      rw [Nat.div_lt_iff_lt_mul pos, ← Nat.pow_add, show 53 + (q.log2 - 52) = q.log2 + 1 by omega]
      exact Nat.lt_log2_self
    -- `q / 2 ^ (q.log2 - 52)` are the leading 53 bits, and the place after them may be in the next
    -- binade
    have place : floorPlace q = (q.log2 - 52) * 2 ^ 52 + q / 2 ^ (q.log2 - 52) := rfl
    rw [place, units_binade low (Nat.le_of_lt high), Nat.add_assoc,
      units_binade (Nat.le_succ_of_le low) high]
    exact ⟨Nat.div_mul_le_self q _, Nat.lt_mul_of_div_lt (Nat.lt_succ_self _) pos⟩

/-! ### The nearest place -/

theorem nearestPlace_mul {k : Nat} (pos : 0 < k) (num den : Nat) :
    nearestPlace (num * k) (den * k) = nearestPlace num den := by
  have cancel : ∀ m n, m * k < n * k ↔ m < n := fun m n => Nat.mul_lt_mul_right pos
  simp only [nearestPlace, Nat.mul_div_mul_right _ _ pos, ← Nat.mul_assoc, cancel]

theorem nearestPlace_congr {num den num' den' : Nat} (pos : 0 < den) (pos' : 0 < den')
    (same : num * den' = num' * den) : nearestPlace num den = nearestPlace num' den' := by
  rw [← nearestPlace_mul pos' num den, same, Nat.mul_comm den, nearestPlace_mul pos]

theorem nearestPlace_of_small {num den : Nat} (small : 2 * num < den) :
    nearestPlace num den = 0 := by
  have floor : floorPlace (num / den) = 0 := by
    rw [Nat.div_eq_of_lt (by omega)]
    rfl
  have middle : (units 0 + units (0 + 1)) * den = den := by
    rw [units_small (by decide), units_small (by decide)]
    omega
  simp only [nearestPlace, floor, middle, if_pos small, Nat.zero_min]

/-- Beyond the midpoint above an odd place, and on it, numbers are rounded to a later place. -/
theorem nearestPlace_le_odd (num : Nat) {den last : Nat} (pos : 0 < den) (odd : last % 2 = 1)
    (finite : last < infinityPlace) :
    nearestPlace num den ≤ last ↔ 2 * num < (units last + units (last + 1)) * den := by
  obtain ⟨below, above⟩ := floorPlace_bounds (num / den)
  rw [Nat.le_div_iff_mul_le pos] at below
  rw [Nat.div_lt_iff_lt_mul pos] at above
  have step := Nat.mul_lt_mul_of_pos_right (units_lt_succ last) pos
  unfold nearestPlace
  generalize floorPlace (num / den) = low at *
  generalize infinityPlace = top at *
  simp only [Nat.add_mul]
  -- only a number between `last` and the next place can be rounded to either of them
  rcases Nat.lt_trichotomy low last with before | rfl | behind
  · have next := Nat.mul_le_mul_right den (units_le_units (show low + 1 ≤ last from before))
    constructor <;> intro _ <;> repeat' split
    all_goals omega
  · repeat' split
    all_goals omega
  · have next := Nat.mul_le_mul_right den (units_le_units (show last + 1 ≤ low from behind))
    constructor <;> intro h <;> repeat' split at h
    all_goals omega

/-- At the end of a binade the midpoint is half a step below the next power of two. -/
theorem nearestPlace_lt_binade (num : Nat) {den shift : Nat} (pos : 0 < den)
    (finite : (shift + 2) * 2 ^ 52 ≤ infinityPlace) :
    nearestPlace num den < (shift + 2) * 2 ^ 52 ↔ 2 * num < (2 ^ 54 - 1) * 2 ^ shift * den := by
  have last : units (shift * 2 ^ 52 + (2 ^ 53 - 1)) = (2 ^ 53 - 1) * 2 ^ shift :=
    units_binade (by decide) (by decide)
  have next : units (shift * 2 ^ 52 + 2 ^ 53) = 2 ^ 53 * 2 ^ shift :=
    units_binade (by decide) (by decide)
  have odd : (shift * 2 ^ 52 + (2 ^ 53 - 1)) % 2 = 1 := by omega
  have middle := nearestPlace_le_odd num pos odd (by omega)
  rw [show shift * 2 ^ 52 + (2 ^ 53 - 1) + 1 = shift * 2 ^ 52 + 2 ^ 53 by omega, last, next,
    ← Nat.add_mul] at middle
  rw [← middle]
  omega

theorem nearestPlace_lt_infinity {num den : Nat} (pos : 0 < den) :
    nearestPlace num den < infinityPlace ↔ num < overflow * 2 ^ leastExponent * den := by
  have middle : (2 ^ 54 - 1) * 2 ^ 2045 = 2 * (overflow * 2 ^ leastExponent) := by decide +kernel
  have finite : (2045 + 2) * 2 ^ 52 ≤ infinityPlace := Nat.le_refl infinityPlace
  have place := nearestPlace_lt_binade num pos finite
  rw [middle, Nat.mul_assoc 2, Nat.mul_lt_mul_left (by decide)] at place
  exact place

/-! ### Decimal numbers -/

theorem two_pow_le_ten_pow {m n : Nat} (h : m ≤ 3 * n) : 2 ^ m ≤ 10 ^ n :=
  calc
    2 ^ m ≤ 2 ^ (3 * n) := Nat.pow_le_pow_right (by decide) h
    _ = 8 ^ n := Nat.pow_mul 2 3 n
    _ ≤ 10 ^ n := Nat.pow_le_pow_left (by decide) n

theorem nearestPlace_of_large {coefficient exponent : Nat} (nonzero : coefficient ≠ 0)
    (large : 400 < exponent) :
    nearestPlace (coefficient * 10 ^ exponent * 2 ^ leastExponent) 1 = infinityPlace := by
  refine Nat.le_antisymm (nearestPlace_le ..) (Nat.le_of_not_lt ?_)
  rw [nearestPlace_lt_infinity Nat.one_pos, Nat.not_lt, Nat.mul_one]
  refine Nat.mul_le_mul_right _ ?_
  calc
    overflow ≤ 2 ^ (3 * 400) := by decide +kernel
    _ ≤ 10 ^ exponent := two_pow_le_ten_pow (by omega)
    _ ≤ coefficient * 10 ^ exponent := Nat.le_mul_of_pos_left _ (Nat.pos_of_ne_zero nonzero)

theorem nearestPlace_of_tiny {coefficient exponent : Nat}
    (tiny : 400 + (coefficient.log2 / 3 + 1) < exponent) :
    nearestPlace (coefficient * 2 ^ leastExponent) (10 ^ exponent) = 0 := by
  refine nearestPlace_of_small ?_
  calc
    2 * (coefficient * 2 ^ leastExponent)
      < 2 * (2 ^ (coefficient.log2 + 1) * 2 ^ leastExponent) :=
      Nat.mul_lt_mul_of_pos_left
        (Nat.mul_lt_mul_of_pos_right Nat.lt_log2_self (Nat.two_pow_pos _)) (by decide)
    _ = 2 ^ (coefficient.log2 + 1 + leastExponent + 1) := by
      rw [← Nat.pow_add, Nat.pow_succ 2 (_ + _), Nat.mul_comm]
    _ ≤ 10 ^ exponent := two_pow_le_ten_pow (by unfold leastExponent; omega)

/-- The limits of the exponent change nothing. -/
theorem decimalPlace_eq_nearestPlace (coefficient : Nat) (exponent : Int) :
    decimalPlace coefficient exponent =
      nearestPlace (coefficient * 10 ^ exponent.toNat * 2 ^ leastExponent)
        (10 ^ (-exponent).toNat) := by
  unfold decimalPlace
  split
  · next zero =>
    refine (nearestPlace_of_small ?_).symm
    rw [zero, Nat.zero_mul, Nat.zero_mul]
    exact Nat.pow_pos (by decide)
  · next nonzero =>
    split
    · next large =>
      rw [show (-exponent).toNat = 0 by omega]
      exact (nearestPlace_of_large nonzero (by omega)).symm
    · split
      · next tiny =>
        rw [show exponent.toNat = 0 by omega, Nat.pow_zero, Nat.mul_one]
        exact (nearestPlace_of_tiny (by omega)).symm
      · split
        · next whole => rw [show (-exponent).toNat = 0 by omega, Nat.pow_zero]
        · next negative => rw [show exponent.toNat = 0 by omega, Nat.pow_zero, Nat.mul_one]

@[simp] theorem decimalPlace_zero (exponent : Int) : decimalPlace 0 exponent = 0 := if_pos rfl

theorem decimalPlace_shift (coefficient zeros : Nat) (exponent : Int) :
    decimalPlace (coefficient * 10 ^ zeros) exponent = decimalPlace coefficient (exponent + zeros) := by
  have pos : ∀ n, 0 < 10 ^ n := fun n => Nat.pow_pos (by decide)
  have powers : 10 ^ zeros * 10 ^ exponent.toNat * 10 ^ (-(exponent + zeros)).toNat =
      10 ^ (exponent + zeros).toNat * 10 ^ (-exponent).toNat := by
    rw [← Nat.pow_add, ← Nat.pow_add, ← Nat.pow_add]
    congr 1
    omega
  rw [decimalPlace_eq_nearestPlace, decimalPlace_eq_nearestPlace]
  refine nearestPlace_congr (pos _) (pos _) ?_
  generalize 2 ^ leastExponent = unit
  calc
    coefficient * 10 ^ zeros * 10 ^ exponent.toNat * unit * 10 ^ (-(exponent + zeros)).toNat =
        coefficient * unit *
          (10 ^ zeros * 10 ^ exponent.toNat * 10 ^ (-(exponent + zeros)).toNat) := by ac_rfl
    _ = coefficient * 10 ^ (exponent + zeros).toNat * unit * 10 ^ (-exponent).toNat := by
      rw [powers]
      ac_rfl

theorem ofDecimal_isFinite_iff (x : Numeral.Decimal) :
    (ofDecimal x).isFinite ↔
      x.coefficient * 10 ^ x.exponent.toNat < overflow * 10 ^ (-x.exponent).toNat := by
  rw [isFinite, decide_eq_true_iff]
  show decimalPlace x.coefficient x.exponent < infinityPlace ↔ _
  rw [decimalPlace_eq_nearestPlace, nearestPlace_lt_infinity (Nat.pow_pos (by decide)),
    Nat.mul_right_comm overflow, Nat.mul_lt_mul_right (Nat.two_pow_pos _)]

theorem ofInt_isFinite {i : Int} (range : i.natAbs < 2 ^ 64) : (ofInt i).isFinite := by
  refine (ofDecimal_isFinite_iff _).mpr ?_
  calc
    i.natAbs * 10 ^ (0 : Int).toNat = i.natAbs := Nat.mul_one _
    _ < 2 ^ 64 := range
    _ ≤ overflow * 10 ^ (-(0 : Int)).toNat := by decide +kernel

end SqlFragment.Binary64
