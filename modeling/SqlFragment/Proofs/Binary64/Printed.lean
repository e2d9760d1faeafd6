import SqlFragment.Binary64.Text
import SqlFragment.Proofs.Binary64.Rounding
import SqlFragment.Proofs.Numeral.Form

/-!
# Printed doubles

Digits with a point stand for one number, however they are laid out, and those of a double stand for
that double. So a finite double is read again from its text, with or without an exponent. Main
statements: `read?_markedText`, `read?_plainText`.
-/

namespace SqlFragment.Binary64

open Numeral Calendar

/-! ### Zeros around digits -/

theorem digits_zeros (k : Nat) : ∀ c ∈ zeros k, c.isDigit := by
  intro c member
  rw [List.eq_of_mem_replicate member]
  rfl

theorem ofDigits_zeros (k : Nat) : ofDigits (zeros k) = 0 := by
  induction k with
  | zero => rfl
  | succ k ih =>
    have split := ofDigits_append ['0'] (zeros k)
    rw [ih] at split
    exact split.trans (Nat.zero_mul _)

theorem ofDigits_append_zeros (ds : List Char) (k : Nat) :
    ofDigits (ds ++ zeros k) = ofDigits ds * 10 ^ k := by
  rw [ofDigits_append, ofDigits_zeros, Nat.add_zero, zeros, List.length_replicate]

theorem ofDigits_zeros_append (k : Nat) (ds : List Char) :
    ofDigits (zeros k ++ ds) = ofDigits ds := by
  rw [ofDigits_append, ofDigits_zeros, Nat.zero_mul, Nat.zero_add]

theorem exists_zeros (ds : List Char) : ∃ k, ds = dropZeros ds ++ zeros k := by
  have split : ds.reverse.takeWhile (· == '0') ++ ds.reverse.dropWhile (· == '0') = ds.reverse :=
    List.takeWhile_append_dropWhile
  have ends : ds.reverse.takeWhile (· == '0') =
      zeros (ds.reverse.takeWhile (· == '0')).length :=
    List.eq_replicate_of_mem fun c member =>
      eq_of_beq (List.all_eq_true.mp List.all_takeWhile c member)
  refine ⟨(ds.reverse.takeWhile (· == '0')).length, ?_⟩
  calc
    ds = ds.reverse.reverse := ds.reverse_reverse.symm
    _ = dropZeros ds ++ (ds.reverse.takeWhile (· == '0')).reverse := by
      rw [← split, List.reverse_append, split, dropZeros]
    _ = dropZeros ds ++ zeros (ds.reverse.takeWhile (· == '0')).length := by
      rw [ends, zeros, List.reverse_replicate, List.length_replicate, zeros]

/-! ### The number that digits stand for -/

namespace Digits

def place (d : Digits) : Nat :=
  decimalPlace (ofDigits d.digits) (d.point - d.digits.length)

theorem whole_ne_nil (d : Digits) : d.whole ≠ [] := by
  unfold whole
  split
  · exact nofun
  · intro none
    have length := congrArg List.length none
    rw [List.length_append, List.length_take, zeros, List.length_replicate, List.length_nil] at length
    omega

variable {d : Digits} (digits : ∀ c ∈ d.digits, c.isDigit)

include digits

theorem digits_whole : ∀ c ∈ d.whole, c.isDigit := by
  unfold whole
  split
  · exact List.forall_mem_singleton.mpr rfl
  · exact List.forall_mem_append.mpr
      ⟨fun c member => digits c (List.mem_of_mem_take member), digits_zeros _⟩

theorem digits_fraction : ∀ c ∈ d.fraction, c.isDigit := by
  unfold fraction
  split
  · exact List.forall_mem_append.mpr ⟨digits_zeros _, digits⟩
  · exact fun c member => digits c (List.mem_of_mem_drop member)

omit digits in
theorem decimalPlace_whole_fraction (d : Digits) :
    decimalPlace (ofDigits (d.whole ++ d.fraction)) (0 - d.fraction.length) = d.place := by
  unfold place whole fraction
  split
  · next small =>
    have digits := ofDigits_zeros_append ((-d.point).toNat + 1) d.digits
    rw [zeros, List.replicate_succ, List.cons_append] at digits
    rw [List.singleton_append, zeros, digits, List.length_append, List.length_replicate]
    exact congrArg (decimalPlace _) (by omega)
  · next large =>
    by_cases all : d.digits.length ≤ d.point.toNat
    · rw [List.take_of_length_le all, List.drop_of_length_le all, List.append_nil,
        ofDigits_append_zeros, decimalPlace_shift, List.length_nil]
      exact congrArg (decimalPlace _) (by omega)
    · rw [Nat.sub_eq_zero_of_le (by omega), zeros, List.replicate_zero, List.append_nil,
        List.take_append_drop, List.length_drop]
      exact congrArg (decimalPlace _) (by omega)

theorem positional_form : ∃ coefficient exponent,
    UnsignedForm d.positional coefficient exponent ∧ decimalPlace coefficient exponent = d.place := by
  have same := decimalPlace_whole_fraction d
  have whole := digits_whole digits
  unfold positional
  split
  · next none =>
    have form := UnsignedForm.intro (.whole d.whole_ne_nil whole) .none
    rw [none] at same
    rw [List.append_nil] at form same
    exact ⟨_, _, form, same⟩
  · have form := UnsignedForm.intro
      (.pointed d.whole_ne_nil whole (digits_fraction digits)) .none
    rw [List.append_nil] at form
    exact ⟨_, _, form, same⟩

theorem scientific_form : ∃ coefficient exponent,
    UnsignedForm d.scientific coefficient exponent ∧
      decimalPlace coefficient exponent = d.place := by
  have mark : ExponentForm ('e' :: Numeral.ofInt (d.point - 1)) (d.point - 1) :=
    .marked (Or.inl rfl) (integerForm_ofInt _)
  obtain ⟨ds, point⟩ := d
  unfold scientific place
  dsimp only at digits mark ⊢
  split
  · have zero : MantissaForm (zeros 1) (zeros 1) [] := .whole nofun (digits_zeros 1)
    have form := UnsignedForm.intro zero mark
    refine ⟨_, _, form, ?_⟩
    have none : ofDigits [] = 0 := rfl
    rw [List.append_nil, ofDigits_zeros, none, decimalPlace_zero, decimalPlace_zero]
  · next c =>
    have single : MantissaForm [c] [c] [] := .whole nofun digits
    have form := UnsignedForm.intro single mark
    refine ⟨_, _, form, ?_⟩
    rw [List.append_nil, List.length_nil, List.length_singleton]
    exact congrArg (decimalPlace _) (by omega)
  · next c rest _ =>
    obtain ⟨first, more⟩ := List.forall_mem_cons.mp digits
    have pointed : MantissaForm ([c] ++ '.' :: rest) [c] rest :=
      .pointed nofun (List.forall_mem_singleton.mpr first) more
    have form := UnsignedForm.intro pointed mark
    refine ⟨_, _, form, ?_⟩
    rw [List.singleton_append, List.length_cons]
    exact congrArg (decimalPlace _) (by omega)

theorem marked_form : ∃ coefficient exponent,
    UnsignedForm d.marked coefficient exponent ∧ decimalPlace coefficient exponent = d.place := by
  unfold marked
  split
  · split
    · next none =>
      have same := decimalPlace_whole_fraction d
      have form := UnsignedForm.intro
        (.pointed d.whole_ne_nil (digits_whole digits) (digits_zeros 1)) .none
      rw [List.append_nil] at form
      refine ⟨_, _, form, ?_⟩
      rw [none, List.append_nil, List.length_nil] at same
      rw [ofDigits_append_zeros, decimalPlace_shift, ← same, zeros, List.length_replicate]
      exact congrArg (decimalPlace _) (by omega)
    · exact positional_form digits
  · exact scientific_form digits

end Digits

/-! ### Doubles -/

theorem digits_placeDigits (n : Nat) : ∀ c ∈ (placeDigits n).digits, c.isDigit := by
  unfold placeDigits
  split
  · exact nofun
  · rcases shortest n with ⟨coefficient, exponent⟩
    obtain ⟨k, split⟩ := exists_zeros (Numeral.digits coefficient)
    have digits := List.all_eq_true.mp (digits_isDigit coefficient)
    rw [split] at digits
    exact (List.forall_mem_append.mp digits).1

theorem place_placeDigits {n : Nat} (h : n ≤ infinityPlace) : (placeDigits n).place = n := by
  have reads := decimalPlace_shortest h
  unfold placeDigits Digits.place
  split
  · next zero =>
    have none : ofDigits [] = 0 := rfl
    rw [none, decimalPlace_zero, zero]
  · generalize shortest n = short at reads ⊢
    obtain ⟨coefficient, exponent⟩ := short
    obtain ⟨k, split⟩ := exists_zeros (Numeral.digits coefficient)
    have value := ofDigits_digits coefficient
    have length := congrArg List.length split
    rw [split, ofDigits_append_zeros] at value
    rw [List.length_append, zeros, List.length_replicate] at length
    dsimp only at reads ⊢
    -- the zeros that were dropped from the end count in the exponent
    rw [← value, decimalPlace_shift] at reads
    refine Eq.trans ?_ reads
    exact congrArg (decimalPlace _) (by omega)

theorem sign_form (x : Binary64) : SignForm x.sign x.negative := by
  unfold sign
  cases x.negative with
  | true => exact .minus
  | false => exact .none

theorem not_isNaN_of_isFinite {x : Binary64} (finite : x.isFinite) : ¬ x.isNaN := by
  rw [isFinite, decide_eq_true_iff] at finite
  rw [isNaN, decide_eq_true_iff]
  exact Nat.not_lt_of_lt finite

theorem not_isInfinite_of_isFinite {x : Binary64} (finite : x.isFinite) : ¬ x.isInfinite := by
  rw [isFinite, decide_eq_true_iff] at finite
  rw [isInfinite, decide_eq_true_iff]
  exact Nat.ne_of_lt finite

theorem markedText_form (x : Binary64) : ∃ coefficient exponent,
    DecimalForm x.markedText.toList ⟨x.negative, coefficient, exponent⟩ ∧
      decimalPlace coefficient exponent = (placeDigits x.magnitude).place := by
  obtain ⟨coefficient, exponent, form, place⟩ :=
    Digits.marked_form (digits_placeDigits x.magnitude)
  rw [markedText, String.toList_ofList]
  exact ⟨coefficient, exponent, .intro x.sign_form form, place⟩

theorem plainText_form {x : Binary64} (finite : x.isFinite) : ∃ coefficient exponent,
    DecimalForm x.plainText.toList ⟨x.negative, coefficient, exponent⟩ ∧
      decimalPlace coefficient exponent = (placeDigits x.magnitude).place := by
  obtain ⟨coefficient, exponent, form, place⟩ :=
    Digits.positional_form (digits_placeDigits x.magnitude)
  rw [plainText, if_neg (not_isNaN_of_isFinite finite),
    if_neg (not_isInfinite_of_isFinite finite), String.toList_ofList]
  exact ⟨coefficient, exponent, .intro x.sign_form form, place⟩

theorem read?_of_form {x : Binary64} (finite : x.isFinite) {s : List Char}
    (form : ∃ coefficient exponent, DecimalForm s ⟨x.negative, coefficient, exponent⟩ ∧
      decimalPlace coefficient exponent = (placeDigits x.magnitude).place) : read? s = some x := by
  obtain ⟨coefficient, exponent, decimal, place⟩ := form
  rw [place_placeDigits (Nat.le_of_lt (of_decide_eq_true finite))] at place
  refine Option.map_eq_some_iff.mpr ⟨_, Decimal.read?_eq_some_iff.mpr decimal, ?_⟩
  obtain ⟨negative, n, bound⟩ := x
  exact (Binary64.mk.injEq ..).mpr ⟨rfl, place⟩

theorem read?_markedText {x : Binary64} (finite : x.isFinite) :
    read? x.markedText.toList = some x :=
  read?_of_form finite x.markedText_form

theorem read?_plainText {x : Binary64} (finite : x.isFinite) :
    read? x.plainText.toList = some x :=
  read?_of_form finite (plainText_form finite)

theorem Digits.point_or_exponent (d : Digits) : '.' ∈ d.marked ∨ 'e' ∈ d.marked := by
  unfold Digits.marked
  split
  · split
    · simp
    · next some => simp [Digits.positional, some]
  · simp [Digits.scientific]

/-- A double among other numbers shows that it is one. -/
theorem point_or_exponent (x : Binary64) :
    '.' ∈ x.markedText.toList ∨ 'e' ∈ x.markedText.toList := by
  rw [markedText, String.toList_ofList]
  exact (placeDigits x.magnitude).point_or_exponent.imp (List.mem_append_right _)
    (List.mem_append_right _)

end SqlFragment.Binary64
