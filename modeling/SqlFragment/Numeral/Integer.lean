/-!
# Integers as decimal text

Canonical decimal text of a whole number, and the reading of a signed 64-bit number: one optional
sign, then ASCII digits, in range. Main statements: digits read back (`ofDigits_digits`), and so do
signed numbers (`readInt64?_ofInt64`).
-/

-- Powers are the built-in ones, whatever other instances are in scope.
attribute [instance (2000), default_instance 20000] instPowNat

namespace SqlFragment.Numeral

def digits (n : Nat) : List Char := Nat.toDigits 10 n

def ofDigits (ds : List Char) : Nat := Nat.ofDigitChars 10 ds 0

/-- Digits filled up with zeros in front to at least `width`. -/
def padded (width n : Nat) : List Char :=
  List.replicate (width - (digits n).length) '0' ++ digits n

def ofInt (i : Int) : List Char :=
  if i < 0 then '-' :: digits i.natAbs else digits i.natAbs

/-- Takes one sign off the front; `true` stands for minus. -/
def splitSign : List Char → Bool × List Char
  | '-' :: rest => (true, rest)
  | '+' :: rest => (false, rest)
  | s => (false, s)

def toInt64? (i : Int) : Option Int64 :=
  if -2 ^ 63 ≤ i ∧ i < 2 ^ 63 then some (Int64.ofInt i) else none

def applySign (negative : Bool) (n : Nat) : Int := if negative then -(n : Int) else n

def readInt64? (s : List Char) : Option Int64 :=
  let (negative, ds) := splitSign s
  if ds ≠ [] ∧ ds.all Char.isDigit then toInt64? (applySign negative (ofDigits ds)) else none

theorem ofDigits_digits (n : Nat) : ofDigits (digits n) = n := Nat.ofDigitChars_ten_toDigits

theorem digits_ne_nil (n : Nat) : digits n ≠ [] := Nat.toDigits_ne_nil

theorem digits_isDigit (n : Nat) : (digits n).all Char.isDigit := by
  rw [List.all_eq_true]
  exact fun c h => Nat.isDigit_of_mem_toDigits (by decide) (by decide) h

theorem splitSign_digits (n : Nat) : splitSign (digits n) = (false, digits n) := by
  have digit := digits_isDigit n
  cases same : digits n with
  | nil => rfl
  | cons c rest =>
    rw [same] at digit
    have head : c.isDigit := by simp at digit; exact digit.1
    rw [splitSign.eq_def]
    split
    · next h => obtain ⟨rfl, -⟩ := List.cons.inj h; exact absurd head (by decide)
    · next h => obtain ⟨rfl, -⟩ := List.cons.inj h; exact absurd head (by decide)
    · rfl

theorem splitSign_ofInt (i : Int) : splitSign (ofInt i) = (decide (i < 0), digits i.natAbs) := by
  rw [ofInt]
  split
  · next h => simp [splitSign, h]
  · next h => simp [splitSign_digits, h]

theorem toInt64?_toInt (i : Int64) : toInt64? i.toInt = some i := by
  have low := i.le_toInt
  have high := i.toInt_lt
  rw [toInt64?, if_pos ⟨by omega, by omega⟩, Int64.ofInt_toInt]

theorem readInt64?_ofInt64 (i : Int64) : readInt64? (ofInt i.toInt) = some i := by
  have value : applySign (decide (i.toInt < 0)) i.toInt.natAbs = i.toInt := by
    simp only [applySign, decide_eq_true_eq]
    split <;> omega
  simp only [readInt64?, splitSign_ofInt, ofDigits_digits, value, toInt64?_toInt]
  exact if_pos ⟨digits_ne_nil _, digits_isDigit _⟩

end SqlFragment.Numeral
