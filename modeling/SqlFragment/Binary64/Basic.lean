/-!
# Double precision numbers

A double is a sign and the place of its magnitude in the ascending sequence of all magnitudes: zero,
the subnormal and normal numbers, infinity, and above it the payloads of "not a number". Equality of
two doubles as data is identity of their bits; the numeric comparison is `sameNumber`. Main
statements: magnitudes grow with their places (`units_lt_succ`), and each magnitude leads back to
its place (`floorPlace_units`).
-/

-- Powers are the built-in ones, whatever other instances are in scope.
attribute [instance (2000), default_instance 20000] instPowNat

namespace SqlFragment

structure Binary64 where
  negative : Bool
  magnitude : Nat
  magnitude_lt : magnitude < 2 ^ 63
  deriving DecidableEq

namespace Binary64

def infinityPlace : Nat := 2047 * 2 ^ 52

def isNaN (x : Binary64) : Bool := infinityPlace < x.magnitude

def isInfinite (x : Binary64) : Bool := x.magnitude = infinityPlace

def isFinite (x : Binary64) : Bool := x.magnitude < infinityPlace

def isZero (x : Binary64) : Bool := x.magnitude = 0

def ofBits (bits : UInt64) : Binary64 :=
  ⟨2 ^ 63 ≤ bits.toNat, bits.toNat % 2 ^ 63, Nat.mod_lt _ (by decide)⟩

/-- Numeric equality: no number equals "not a number", and the two zeros are equal. -/
def sameNumber (x y : Binary64) : Bool :=
  !x.isNaN && !y.isNaN && (x == y || (x.isZero && y.isZero))

/-- The least positive double is `2 ^ -leastExponent`. -/
def leastExponent : Nat := 1074

/-- The magnitude at place `n` as a multiple of the least positive double. -/
def units (n : Nat) : Nat :=
  let shift := n / 2 ^ 52 - 1
  (n - shift * 2 ^ 52) * 2 ^ shift

/-- The last place whose magnitude does not exceed `q` least doubles. -/
def floorPlace (q : Nat) : Nat :=
  let shift := q.log2 - 52
  shift * 2 ^ 52 + q / 2 ^ shift

/-! ### Places and magnitudes -/

theorem units_small {n : Nat} (h : n < 2 ^ 53) : units n = n := by
  have shift : n / 2 ^ 52 - 1 = 0 := by omega
  simp only [units, shift, Nat.zero_mul, Nat.sub_zero, Nat.pow_zero, Nat.mul_one]

/-- In the binade that starts at place `(shift + 1) * 2 ^ 52`, magnitudes are `2 ^ shift` apart, up
to the first of the next binade. -/
theorem units_binade {shift part : Nat} (low : 2 ^ 52 ≤ part) (high : part ≤ 2 ^ 53) :
    units (shift * 2 ^ 52 + part) = part * 2 ^ shift := by
  by_cases last : part = 2 ^ 53
  · have next : (shift * 2 ^ 52 + part) / 2 ^ 52 - 1 = shift + 1 := by omega
    have start : shift * 2 ^ 52 + part - (shift + 1) * 2 ^ 52 = 2 ^ 52 := by omega
    rw [units, next, start, last, Nat.pow_succ 2 shift, Nat.mul_comm (2 ^ shift), ← Nat.mul_assoc]
  · have same : (shift * 2 ^ 52 + part) / 2 ^ 52 - 1 = shift := by omega
    rw [units, same, Nat.add_sub_cancel_left]

theorem exists_binade {n : Nat} (h : 2 ^ 53 ≤ n) :
    ∃ shift part, 2 ^ 52 ≤ part ∧ part < 2 ^ 53 ∧ n = shift * 2 ^ 52 + part :=
  ⟨n / 2 ^ 52 - 1, n % 2 ^ 52 + 2 ^ 52, by omega, by omega, by omega⟩

theorem floorPlace_units (n : Nat) : floorPlace (units n) = n := by
  by_cases small : n < 2 ^ 53
  · rw [units_small small]
    have shift : n.log2 - 52 = 0 := by
      by_cases zero : n = 0
      · simp [zero]
      · have := (Nat.log2_lt zero).mpr small
        omega
    simp only [floorPlace, shift, Nat.zero_mul, Nat.zero_add, Nat.pow_zero, Nat.div_one]
  · obtain ⟨shift, part, low, high, rfl⟩ := exists_binade (Nat.le_of_not_lt small)
    rw [units_binade low (Nat.le_of_lt high)]
    have pos : part * 2 ^ shift ≠ 0 :=
      Nat.mul_ne_zero (by omega) (Nat.ne_of_gt (Nat.two_pow_pos shift))
    have log : (part * 2 ^ shift).log2 = shift + 52 := by
      refine (Nat.log2_eq_iff pos).mpr ⟨?_, ?_⟩
      · rw [Nat.pow_add, Nat.mul_comm]
        exact Nat.mul_le_mul_right _ low
      · rw [show shift + 52 + 1 = 53 + shift by omega, Nat.pow_add]
        exact Nat.mul_lt_mul_of_pos_right high (Nat.two_pow_pos shift)
    rw [floorPlace, log, Nat.add_sub_cancel, Nat.mul_div_cancel _ (Nat.two_pow_pos shift)]

theorem units_lt_succ (n : Nat) : units n < units (n + 1) := by
  by_cases small : n + 1 < 2 ^ 53
  · rw [units_small small, units_small (by omega)]
    omega
  · by_cases edge : n + 1 = 2 ^ 53
    · obtain rfl : n = 2 ^ 53 - 1 := by omega
      decide
    · obtain ⟨shift, part, low, high, rfl⟩ := exists_binade (n := n) (by omega)
      rw [Nat.add_assoc, units_binade low (by omega), units_binade (by omega) (by omega)]
      exact Nat.mul_lt_mul_of_pos_right (Nat.lt_succ_self part) (Nat.two_pow_pos shift)

theorem units_pos {n : Nat} (h : n ≠ 0) : 0 < units n := by
  cases n with
  | zero => exact absurd rfl h
  | succ n => exact Nat.lt_of_le_of_lt (Nat.zero_le _) (units_lt_succ n)

end Binary64

end SqlFragment
