import SqlFragment.Numeral.Decimal
import SqlFragment.Proofs.Calendar.Form

/-!
# The form of numbers

Integers and decimal numbers as texts: an optional sign, digits with or without a point among them,
and an optional exponent. Main statements: exactly the texts of this form are read, each as the
number that its parts give (`readInt64?_eq_some_iff`, `Decimal.read?_eq_some_iff`).
-/

namespace SqlFragment.Numeral

open Calendar

inductive SignForm : List Char → Bool → Prop where
  | none : SignForm [] false
  | plus : SignForm ['+'] false
  | minus : SignForm ['-'] true

inductive IntegerForm : List Char → Int → Prop where
  | intro {sign ds : List Char} {negative : Bool} {n : Nat} (signForm : SignForm sign negative)
      (number : IsNumber ds n) : IntegerForm (sign ++ ds) (applySign negative n)

/-- Digits before and behind a point, which may be left out; one of both runs may be empty. -/
inductive MantissaForm : List Char → List Char → List Char → Prop where
  | whole {whole : List Char} (nonempty : whole ≠ []) (digits : ∀ c ∈ whole, c.isDigit) :
      MantissaForm whole whole []
  | pointed {whole fraction : List Char} (nonempty : whole ≠ []) (digits : ∀ c ∈ whole, c.isDigit)
      (more : ∀ c ∈ fraction, c.isDigit) :
      MantissaForm (whole ++ '.' :: fraction) whole fraction
  | leadingPoint {fraction : List Char} (nonempty : fraction ≠ [])
      (digits : ∀ c ∈ fraction, c.isDigit) : MantissaForm ('.' :: fraction) [] fraction

inductive ExponentForm : List Char → Int → Prop where
  | none : ExponentForm [] 0
  | marked {mark : Char} {text : List Char} {exponent : Int} (letter : mark = 'e' ∨ mark = 'E')
      (integer : IntegerForm text exponent) : ExponentForm (mark :: text) exponent

/-- All digits count, and the point moves the exponent. -/
inductive UnsignedForm : List Char → Nat → Int → Prop where
  | intro {mantissa whole fraction mark : List Char} {exponent : Int}
      (mantissaForm : MantissaForm mantissa whole fraction)
      (exponentForm : ExponentForm mark exponent) :
      UnsignedForm (mantissa ++ mark) (ofDigits (whole ++ fraction)) (exponent - fraction.length)

inductive DecimalForm : List Char → Decimal → Prop where
  | intro {sign body : List Char} {negative : Bool} {coefficient : Nat} {exponent : Int}
      (signForm : SignForm sign negative) (unsigned : UnsignedForm body coefficient exponent) :
      DecimalForm (sign ++ body) ⟨negative, coefficient, exponent⟩

/-! ### Signs and integers -/

/-- What a text without a sign starts with. -/
def StartsUnsigned (s : List Char) : Prop := ∀ c ∈ s.head?, c.isDigit ∨ c = '.'

theorem splitSign_sound (s : List Char) :
    ∃ sign, SignForm sign (splitSign s).1 ∧ s = sign ++ (splitSign s).2 := by
  unfold splitSign
  split
  · exact ⟨['-'], .minus, rfl⟩
  · exact ⟨['+'], .plus, rfl⟩
  · exact ⟨[], .none, rfl⟩

theorem splitSign_complete {sign body : List Char} {negative : Bool} (form : SignForm sign negative)
    (start : StartsUnsigned body) : splitSign (sign ++ body) = (negative, body) := by
  cases form with
  | plus => rfl
  | minus => rfl
  | none =>
    rw [List.nil_append, splitSign.eq_def]
    split
    · exact absurd (start '-' rfl) (by decide)
    · exact absurd (start '+' rfl) (by decide)
    · rfl

theorem startsUnsigned_digits {ds : List Char} (digits : ∀ c ∈ ds, c.isDigit) :
    StartsUnsigned ds :=
  fun c first => Or.inl (digits c (List.mem_of_mem_head? first))

theorem SignForm.chars {sign : List Char} {negative : Bool} (form : SignForm sign negative) :
    ∀ c ∈ sign, c = '+' ∨ c = '-' := by
  cases form with
  | none => exact List.forall_mem_nil _
  | plus => exact List.forall_mem_singleton.mpr (Or.inl rfl)
  | minus => exact List.forall_mem_singleton.mpr (Or.inr rfl)

theorem IntegerForm.chars {s : List Char} {i : Int} (form : IntegerForm s i) :
    ∀ c ∈ s, c.isDigit ∨ c = '+' ∨ c = '-' := by
  obtain ⟨signForm, number⟩ := form
  exact List.forall_mem_append.mpr ⟨fun c member => Or.inr (signForm.chars c member),
    fun c member => Or.inl (number.digits c member)⟩

theorem readInteger_iff {s : List Char} {i : Int} :
    ((splitSign s).2 ≠ [] ∧ (splitSign s).2.all Char.isDigit) ∧
        applySign (splitSign s).1 (ofDigits (splitSign s).2) = i ↔
      IntegerForm s i := by
  constructor
  · rintro ⟨⟨nonempty, digits⟩, rfl⟩
    obtain ⟨sign, form, same⟩ := splitSign_sound s
    have integer := IntegerForm.intro form ⟨nonempty, List.all_eq_true.mp digits, rfl⟩
    rwa [← same] at integer
  · rintro ⟨form, number⟩
    rw [splitSign_complete form (startsUnsigned_digits number.digits), number.value]
    exact ⟨⟨number.nonempty, List.all_eq_true.mpr number.digits⟩, rfl⟩

theorem toInt64?_eq_some_iff {z : Int} {i : Int64} : toInt64? z = some i ↔ i.toInt = z := by
  constructor
  · intro h
    unfold toInt64? at h
    split at h
    · next range =>
      obtain rfl := Option.some.inj h
      exact Int64.toInt_ofInt_of_le (by omega) (by omega)
    · cases h
  · rintro rfl
    exact toInt64?_toInt i

theorem readInt64?_eq_some_iff {s : List Char} {i : Int64} :
    readInt64? s = some i ↔ IntegerForm s i.toInt := by
  rw [← readInteger_iff]
  simp only [readInt64?]
  split
  · next valid => rw [toInt64?_eq_some_iff, and_iff_right valid, eq_comm]
  · next invalid => simp only [invalid, false_and, reduceCtorEq]

theorem integerForm_ofInt (i : Int) : IntegerForm (ofInt i) i := by
  rw [← readInteger_iff, splitSign_ofInt, ofDigits_digits]
  refine ⟨⟨digits_ne_nil _, digits_isDigit _⟩, ?_⟩
  simp only [applySign, decide_eq_true_eq]
  split <;> omega

/-! ### Decimal numbers -/

theorem readExponent?_eq_some_iff {s : List Char} {exponent : Int} :
    Decimal.readExponent? s = some exponent ↔ ExponentForm s exponent := by
  constructor
  · intro h
    unfold Decimal.readExponent? at h
    split at h
    · obtain rfl := Option.some.inj h
      exact .none
    · split at h
      · next letter =>
        simp only [Option.ite_none_right_eq_some, Option.some.injEq] at h
        exact .marked letter (readInteger_iff.mp h)
      · cases h
  · intro form
    cases form with
    | none => rfl
    | marked letter integer =>
      obtain ⟨valid, value⟩ := readInteger_iff.mpr integer
      simp only [Decimal.readExponent?, if_pos letter, if_pos valid, value]

theorem ExponentForm.noDigit {text : List Char} {exponent : Int}
    (form : ExponentForm text exponent) : NoDigit text := by
  cases form with
  | none =>
    intro c first
    cases first
  | marked letter integer =>
    intro c first
    obtain rfl := Option.some.inj first
    obtain rfl | rfl := letter <;> rfl

theorem ExponentForm.noPoint {text : List Char} {exponent : Int}
    (form : ExponentForm text exponent) : text.head? ≠ some '.' := by
  cases form with
  | none => exact nofun
  | marked letter integer => obtain rfl | rfl := letter <;> exact nofun

theorem MantissaForm.startsUnsigned {text whole fraction : List Char}
    (form : MantissaForm text whole fraction) (rest : List Char) :
    StartsUnsigned (text ++ rest) := by
  intro c first
  cases form with
  | whole nonempty digits | pointed nonempty digits more =>
    obtain ⟨d, later, rfl⟩ := List.exists_cons_of_ne_nil nonempty
    obtain rfl := Option.some.inj first
    exact Or.inl (digits d List.mem_cons_self)
  | leadingPoint nonempty digits => exact Or.inr (Option.some.inj first).symm

theorem MantissaForm.chars {text whole fraction : List Char}
    (form : MantissaForm text whole fraction) : ∀ c ∈ text, c.isDigit ∨ c = '.' := by
  cases form with
  | whole nonempty digits => exact fun c member => Or.inl (digits c member)
  | pointed nonempty digits more =>
    exact List.forall_mem_append.mpr ⟨fun c member => Or.inl (digits c member),
      List.forall_mem_cons.mpr ⟨Or.inr rfl, fun c member => Or.inl (more c member)⟩⟩
  | leadingPoint nonempty digits =>
    exact List.forall_mem_cons.mpr ⟨Or.inr rfl, fun c member => Or.inl (digits c member)⟩

theorem ExponentForm.chars {text : List Char} {exponent : Int} (form : ExponentForm text exponent) :
    ∀ c ∈ text, c.isDigit ∨ c ∈ ['+', '-', 'e', 'E'] := by
  cases form with
  | none => exact List.forall_mem_nil _
  | marked letter integer =>
    refine List.forall_mem_cons.mpr ⟨?_, fun c member => ?_⟩
    · obtain rfl | rfl := letter <;> decide
    · obtain digit | rfl | rfl := integer.chars c member
      · exact Or.inl digit
      · decide
      · decide

theorem DecimalForm.chars {s : List Char} {x : Decimal} (form : DecimalForm s x) :
    ∀ c ∈ s, c.isDigit ∨ c ∈ ['+', '-', 'e', 'E', '.'] := by
  obtain ⟨signForm, mantissaForm, exponentForm⟩ := form
  intro c member
  obtain inSign | inBody := List.mem_append.mp member
  · obtain rfl | rfl := signForm.chars c inSign <;> decide
  · obtain inMantissa | inMark := List.mem_append.mp inBody
    · obtain digit | rfl := mantissaForm.chars c inMantissa
      · exact Or.inl digit
      · decide
    · exact (exponentForm.chars c inMark).imp id fun other => List.mem_append_left ['.'] other

theorem decimalForm_ofInt (i : Int) : DecimalForm (ofInt i) ⟨decide (i < 0), i.natAbs, 0⟩ := by
  have unsigned : UnsignedForm (digits i.natAbs) i.natAbs 0 := by
    have form := UnsignedForm.intro
      (.whole (digits_ne_nil i.natAbs) (List.all_eq_true.mp (digits_isDigit i.natAbs))) .none
    rw [List.append_nil, ofDigits_digits] at form
    exact form
  rw [ofInt]
  split
  · next negative =>
    rw [decide_eq_true negative]
    exact .intro .minus unsigned
  · next positive =>
    rw [decide_eq_false positive]
    exact .intro .none unsigned

theorem readMantissa?_sound {s whole fraction rest : List Char}
    (h : Decimal.readMantissa? s = some ((whole, fraction), rest)) :
    ∃ mantissa, MantissaForm mantissa whole fraction ∧ s = mantissa ++ rest := by
  have split : s.takeWhile Char.isDigit ++ s.dropWhile Char.isDigit = s :=
    List.takeWhile_append_dropWhile
  have digits : ∀ (t : List Char), ∀ c ∈ t.takeWhile Char.isDigit, c.isDigit :=
    fun t => List.all_eq_true.mp List.all_takeWhile
  unfold Decimal.readMantissa? at h
  split at h
  next behind =>
    dsimp only at h
    split at h
    · cases h
    · next some =>
      cases h
      split at behind <;> cases behind
      · next later point =>
        have tail : later.takeWhile Char.isDigit ++ later.dropWhile Char.isDigit = later :=
          List.takeWhile_append_dropWhile
        refine ⟨s.takeWhile Char.isDigit ++ '.' :: later.takeWhile Char.isDigit, ?_, ?_⟩
        · by_cases none : s.takeWhile Char.isDigit = []
          · rw [none] at some ⊢
            exact .leadingPoint (fun empty => some ⟨rfl, empty⟩) (digits later)
          · exact .pointed none (digits s) (digits later)
        · rw [List.append_assoc, List.cons_append, tail, ← point, split]
      · exact ⟨_, .whole (fun none => some ⟨none, rfl⟩) (digits s), split.symm⟩

theorem readMantissa?_complete {mantissa whole fraction rest : List Char}
    (form : MantissaForm mantissa whole fraction) (stop : NoDigit rest)
    (noPoint : rest.head? ≠ some '.') :
    Decimal.readMantissa? (mantissa ++ rest) = some ((whole, fraction), rest) := by
  have point : ∀ later, NoDigit ('.' :: later) := by
    intro later c first
    obtain rfl := Option.some.inj first
    rfl
  cases form with
  | whole nonempty digits =>
    obtain ⟨front, back⟩ := span_digits digits stop
    simp only [Decimal.readMantissa?, front, back]
    split
    · exact absurd rfl noPoint
    · exact if_neg fun none => nonempty none.1
  | pointed nonempty digits more =>
    have whole := span_digits digits (point (fraction ++ rest))
    have tail := span_digits more stop
    simp only [List.append_assoc, List.cons_append, Decimal.readMantissa?, whole, tail]
    exact if_neg fun none => nonempty none.1
  | leadingPoint nonempty digits =>
    have tail := span_digits digits stop
    have none : ∀ c ∈ ([] : List Char), c.isDigit := List.forall_mem_nil _
    have whole := span_digits none (point (fraction ++ rest))
    rw [List.nil_append] at whole
    simp only [List.cons_append, Decimal.readMantissa?, whole, tail]
    exact if_neg fun none => nonempty none.2

theorem Decimal.read?_eq_some_iff {s : List Char} {x : Decimal} :
    Decimal.read? s = some x ↔ DecimalForm s x := by
  constructor
  · intro h
    simp only [Decimal.read?, Option.bind_eq_bind, Option.bind_eq_some_iff, Option.pure_def,
      Option.some.injEq, Prod.exists] at h
    obtain ⟨whole, fraction, rest, mantissaRead, exponent, exponentRead, rfl⟩ := h
    obtain ⟨sign, signForm, same⟩ := splitSign_sound s
    obtain ⟨mantissa, mantissaForm, body⟩ := readMantissa?_sound mantissaRead
    have form := DecimalForm.intro signForm
      (.intro mantissaForm (readExponent?_eq_some_iff.mp exponentRead))
    rwa [← body, ← same] at form
  · rintro ⟨signForm, mantissaForm, exponentForm⟩
    simp only [Decimal.read?, splitSign_complete signForm (mantissaForm.startsUnsigned _),
      readMantissa?_complete mantissaForm exponentForm.noDigit exponentForm.noPoint,
      readExponent?_eq_some_iff.mpr exponentForm, Option.bind_eq_bind, Option.bind_some,
      Option.pure_def]

end SqlFragment.Numeral
