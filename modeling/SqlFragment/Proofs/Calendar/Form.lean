import SqlFragment.Calendar.Reader

/-!
# The form of dates and timestamps

Dates and timestamps as texts: fields and separators in their order, with gaps before them. A layout
says what may stand in a gap and how many digits a field may have; ISO layout has no gaps and fields
of fixed width. Main statements: exactly the texts in loose layout are read, each as the date or the
timestamp whose fields it gives (`Date.read?_eq_some_iff`, `Timestamp.read?_eq_some_iff`).
-/

namespace SqlFragment

open Text Numeral

namespace Calendar

/-- A run of digits, and the number that it stands for. -/
structure IsNumber (ds : List Char) (n : Nat) : Prop where
  nonempty : ds ≠ []
  digits : ∀ c ∈ ds, c.isDigit
  value : ofDigits ds = n

structure Layout where
  /-- What may stand before a field, before a separator and at the end. -/
  gap : List Char → Prop
  /-- How many digits the fields other than the year may have. -/
  field : Nat → Prop
  year : Nat → Prop
  /-- How many digits a year behind a sign may have. -/
  signedYear : Nat → Prop

namespace Layout

def iso : Layout where
  gap u := u = []
  field width := width = 2
  year width := width = 4
  signedYear width := 4 ≤ width

def loose : Layout where
  gap u := ∀ c ∈ u, isBlank c
  field width := width ≤ 2
  year width := width ≤ 4
  signedYear _ := True

end Layout

/-- The text starts with the tokens, each behind a gap, and goes on with `rest`. -/
inductive Spaced (gap : List Char → Prop) : List (List Char) → List Char → List Char → Prop where
  | nil {rest : List Char} : Spaced gap [] rest rest
  | cons {u token s rest : List Char} {tokens : List (List Char)} (before : gap u)
      (next : Spaced gap tokens s rest) : Spaced gap (token :: tokens) (u ++ (token ++ s)) rest

inductive YearForm (l : Layout) : List Char → Int → Prop where
  | plain {ds : List Char} {n : Nat} (number : IsNumber ds n) (width : l.year ds.length) :
      YearForm l ds n
  | minus {ds : List Char} {n : Nat} (number : IsNumber ds n) (width : l.signedYear ds.length) :
      YearForm l ('-' :: ds) (-n)
  | plus {ds : List Char} {n : Nat} (number : IsNumber ds n) (width : l.signedYear ds.length) :
      YearForm l ('+' :: ds) n

structure FieldForm (l : Layout) (ds : List Char) (n : Nat) : Prop where
  number : IsNumber ds n
  width : l.field ds.length

/-- A part of a second in whole nanoseconds; what is less than one of them does not count. -/
inductive FractionForm : List Char → Nat → Prop where
  | none : FractionForm [] 0
  | digits {ds : List Char} {n : Nat} (number : IsNumber ds n) :
      FractionForm ('.' :: ds) (n * 10 ^ 9 / 10 ^ ds.length)

inductive DayTokens (l : Layout) (d : Date) : List (List Char) → Prop where
  | intro {year month day : List Char} (yearForm : YearForm l year d.year)
      (monthForm : FieldForm l month d.month) (dayForm : FieldForm l day d.day) :
      DayTokens l d [year, ['-'], month, ['-'], day]

/-- A leap second is second 60. -/
inductive TimeTokens (l : Layout) (t : Time) : List (List Char) → Prop where
  | intro {hour minute second fraction : List Char} (hourForm : FieldForm l hour t.hour)
      (minuteForm : FieldForm l minute t.minute)
      (secondForm : FieldForm l second (t.second + t.nanosecond / 10 ^ 9))
      (fractionForm : FractionForm fraction (t.nanosecond % 10 ^ 9)) :
      TimeTokens l t [hour, [':'], minute, [':'], second ++ fraction]

def DateForm (l : Layout) (s : List Char) (d : Date) : Prop :=
  ∃ tokens trail, DayTokens l d tokens ∧ Spaced l.gap tokens s trail ∧ l.gap trail

def TimestampForm (l : Layout) (s : List Char) (t : Timestamp) : Prop :=
  ∃ day time trail, DayTokens l t.date day ∧ TimeTokens l t.time time ∧
    Spaced l.gap (day ++ ['T'] :: time) s trail ∧ l.gap trail

theorem spaced_append {gap : List Char → Prop} {first second : List (List Char)}
    {s rest : List Char} :
    Spaced gap (first ++ second) s rest ↔
      ∃ between, Spaced gap first s between ∧ Spaced gap second between rest := by
  constructor
  · intro h
    induction first generalizing s with
    | nil => exact ⟨s, .nil, h⟩
    | cons token first ih =>
      cases h with
      | cons before next =>
        obtain ⟨between, front, back⟩ := ih next
        exact ⟨between, .cons before front, back⟩
  · rintro ⟨between, front, back⟩
    induction front with
    | nil => exact back
    | cons before next ih => exact .cons before (ih back)

/-! ### Blanks and digits -/

theorem trimLeft_append_cons {u s : List Char} {c : Char} (blank : ∀ c ∈ u, isBlank c)
    (visible : isBlank c = false) : trimLeft (u ++ c :: s) = c :: s := by
  rw [trimLeft, List.dropWhile_append_of_pos blank,
    List.dropWhile_cons_of_neg (by simp [visible])]

theorem IsNumber.exists_head {ds : List Char} {n : Nat} (number : IsNumber ds n) :
    ∃ c rest, ds = c :: rest ∧ c.isDigit := by
  cases ds with
  | nil => exact absurd rfl number.nonempty
  | cons c rest => exact ⟨c, rest, rfl, number.digits c List.mem_cons_self⟩

/-- What a number must not run into. -/
def NoDigit (s : List Char) : Prop := ∀ c ∈ s.head?, c.isDigit = false

theorem noDigit_append {u : List Char} (blank : ∀ c ∈ u, isBlank c) {s : List Char}
    (h : NoDigit s) : NoDigit (u ++ s) := by
  cases u with
  | nil => exact h
  | cons c rest =>
    intro d first
    obtain rfl := Option.some.inj first
    cases digit : c.isDigit with
    | false => rfl
    | true =>
      have not := isBlank_of_isDigit digit
      rw [blank c List.mem_cons_self] at not
      cases not

theorem noDigit_separator (separator : Char) {u s : List Char} (blank : ∀ c ∈ u, isBlank c)
    (other : separator.isDigit = false) : NoDigit (u ++ ([separator] ++ s)) := by
  refine noDigit_append blank fun c first => ?_
  obtain rfl := Option.some.inj first
  exact other

theorem noDigit_blank {u : List Char} (blank : ∀ c ∈ u, isBlank c) : NoDigit u := by
  have done : NoDigit [] := by
    intro c first
    cases first
  have h := noDigit_append blank done
  rwa [List.append_nil] at h

theorem span_digits {ds rest : List Char} (digits : ∀ c ∈ ds, c.isDigit) (stop : NoDigit rest) :
    (ds ++ rest).takeWhile Char.isDigit = ds ∧ (ds ++ rest).dropWhile Char.isDigit = rest := by
  rw [List.takeWhile_append_of_pos digits, List.dropWhile_append_of_pos digits]
  cases rest with
  | nil => exact ⟨List.append_nil ds, rfl⟩
  | cons c later =>
    have other : ¬ c.isDigit := by simp [stop c rfl]
    rw [List.takeWhile_cons_of_neg other, List.dropWhile_cons_of_neg other]
    exact ⟨List.append_nil ds, rfl⟩

/-! ### Reading one token -/

theorem readNumber?_sound {most n : Nat} {s rest : List Char}
    (h : readNumber? most s = some (n, rest)) :
    ∃ ds, s = ds ++ rest ∧ IsNumber ds n ∧ ds.length ≤ most := by
  simp only [readNumber?] at h
  split at h
  · cases h
  · next nonempty =>
    cases h
    have front : (s.take most).takeWhile Char.isDigit <+: s.take most := List.takeWhile_prefix _
    have short := front.length_le
    rw [List.length_take] at short
    refine ⟨_, (List.prefix_iff_eq_append.mp (front.trans (List.take_prefix most s))).symm,
      ⟨nonempty, fun c member => ?_, rfl⟩, by omega⟩
    exact List.all_eq_true.mp List.all_takeWhile c member

theorem readNumber?_complete {most n : Nat} {ds rest : List Char} (number : IsNumber ds n)
    (width : ds.length ≤ most) (stop : NoDigit rest) :
    readNumber? most (ds ++ rest) = some (n, rest) := by
  have within : NoDigit (rest.take (most - ds.length)) := by
    intro c first
    rw [List.head?_take] at first
    split at first
    · cases first
    · exact stop c first
  have run : ((ds ++ rest).take most).takeWhile Char.isDigit = ds := by
    rw [List.take_append, List.take_of_length_le width]
    exact (span_digits number.digits within).1
  simp only [readNumber?, run, if_neg number.nonempty, number.value, List.drop_left]

theorem readField?_sound {n : Nat} {s rest : List Char} (h : readField? s = some (n, rest)) :
    ∃ ds, FieldForm .loose ds n ∧ Spaced Layout.loose.gap [ds] s rest := by
  obtain ⟨u, blank, split⟩ := eq_append_trimLeft s
  obtain ⟨ds, same, number, width⟩ := readNumber?_sound h
  rw [same] at split
  rw [split]
  exact ⟨ds, ⟨number, width⟩, .cons blank .nil⟩

theorem readField?_complete {n : Nat} {u ds rest : List Char} (blank : ∀ c ∈ u, isBlank c)
    (form : FieldForm .loose ds n) (stop : NoDigit rest) :
    readField? (u ++ (ds ++ rest)) = some (n, rest) := by
  obtain ⟨c, later, rfl, digit⟩ := form.number.exists_head
  have start : trimLeft (u ++ (c :: later ++ rest)) = c :: later ++ rest :=
    trimLeft_append_cons blank (isBlank_of_isDigit digit)
  rw [readField?, start]
  exact readNumber?_complete form.number form.width stop

theorem readSeparator?_sound {separator : Char} {s rest : List Char}
    (h : readSeparator? separator s = some rest) :
    Spaced Layout.loose.gap [[separator]] s rest := by
  obtain ⟨u, blank, split⟩ := eq_append_trimLeft s
  rw [readSeparator?] at h
  cases same : trimLeft s with
  | nil => rw [same] at h; cases h
  | cons c later =>
    rw [same] at h split
    simp only at h
    split at h
    · next here =>
      cases h
      rw [split, here]
      exact .cons blank .nil
    · cases h

theorem readSeparator?_complete (separator : Char) {u rest : List Char}
    (blank : ∀ c ∈ u, isBlank c) (visible : isBlank separator = false) :
    readSeparator? separator (u ++ ([separator] ++ rest)) = some rest := by
  have start : trimLeft (u ++ ([separator] ++ rest)) = separator :: rest :=
    trimLeft_append_cons blank visible
  rw [readSeparator?, start]
  exact if_pos rfl

theorem readYear?_sound {year : Int} {s rest : List Char} (h : readYear? s = some (year, rest)) :
    ∃ text, YearForm .loose text year ∧ Spaced Layout.loose.gap [text] s rest := by
  obtain ⟨u, blank, split⟩ := eq_append_trimLeft s
  rw [readYear?] at h
  split at h
  · next later same =>
    obtain ⟨⟨n, r⟩, read, pair⟩ := Option.map_eq_some_iff.mp h
    cases pair
    obtain ⟨ds, rfl, number, -⟩ := readNumber?_sound read
    rw [split, same]
    exact ⟨'-' :: ds, .minus number trivial, .cons blank .nil⟩
  · next later same =>
    obtain ⟨⟨n, r⟩, read, pair⟩ := Option.map_eq_some_iff.mp h
    cases pair
    obtain ⟨ds, rfl, number, -⟩ := readNumber?_sound read
    rw [split, same]
    exact ⟨'+' :: ds, .plus number trivial, .cons blank .nil⟩
  · obtain ⟨⟨n, r⟩, read, pair⟩ := Option.map_eq_some_iff.mp h
    cases pair
    obtain ⟨ds, same, number, width⟩ := readNumber?_sound read
    rw [split, same]
    exact ⟨ds, .plain number width, .cons blank .nil⟩

theorem readYear?_complete {year : Int} {u text rest : List Char} (blank : ∀ c ∈ u, isBlank c)
    (form : YearForm .loose text year) (stop : NoDigit rest) :
    readYear? (u ++ (text ++ rest)) = some (year, rest) := by
  cases form with
  | @plain _ n number width =>
    have read := readNumber?_complete number width stop
    obtain ⟨c, later, rfl, digit⟩ := number.exists_head
    have start : trimLeft (u ++ (c :: later ++ rest)) = c :: (later ++ rest) :=
      trimLeft_append_cons blank (isBlank_of_isDigit digit)
    rw [readYear?, start]
    split
    · next same =>
      obtain ⟨rfl, -⟩ := List.cons.inj same
      exact absurd digit (by decide)
    · next same =>
      obtain ⟨rfl, -⟩ := List.cons.inj same
      exact absurd digit (by decide)
    · exact Option.map_eq_some_iff.mpr ⟨(n, rest), read, rfl⟩
  | @minus ds n number width =>
    have start : trimLeft (u ++ ('-' :: ds ++ rest)) = '-' :: (ds ++ rest) :=
      trimLeft_append_cons blank rfl
    have read := readNumber?_complete number (List.prefix_append ds rest).length_le stop
    rw [readYear?, start]
    exact Option.map_eq_some_iff.mpr ⟨(n, rest), read, rfl⟩
  | @plus ds n number width =>
    have start : trimLeft (u ++ ('+' :: ds ++ rest)) = '+' :: (ds ++ rest) :=
      trimLeft_append_cons blank rfl
    have read := readNumber?_complete number (List.prefix_append ds rest).length_le stop
    rw [readYear?, start]
    exact Option.map_eq_some_iff.mpr ⟨(n, rest), read, rfl⟩

/-! ### Fractions -/

theorem ofDigits_append (front back : List Char) :
    ofDigits (front ++ back) = ofDigits front * 10 ^ back.length + ofDigits back := by
  rw [ofDigits, Nat.ofDigitChars_append, Nat.ofDigitChars_eq_ofDigitChars_zero, Nat.mul_comm]
  rfl

theorem ofDigits_lt {ds : List Char} (digits : ∀ c ∈ ds, c.isDigit) :
    ofDigits ds < 10 ^ ds.length := by
  induction ds with
  | nil => decide
  | cons c rest ih =>
    have below := ih fun d member => digits d (List.mem_cons_of_mem c member)
    have digit := digits c List.mem_cons_self
    have value : ofDigits [c] ≤ 9 := by
      simp only [Char.isDigit, Bool.and_eq_true, decide_eq_true_eq] at digit
      have high : c.toNat ≤ 57 := UInt32.le_iff_toNat_le.mp digit.2
      show 10 * 0 + (c.toNat - '0'.toNat) ≤ 9
      have zero : '0'.toNat = 48 := rfl
      omega
    have split := ofDigits_append [c] rest
    have bound := Nat.mul_le_mul_right (10 ^ rest.length) value
    rw [List.singleton_append] at split
    rw [split, List.length_cons, Nat.pow_succ]
    omega

theorem nanoseconds_take {ds : List Char} (digits : ∀ c ∈ ds, c.isDigit) :
    ofDigits (ds.take 9) * 10 ^ (9 - (ds.take 9).length) =
      ofDigits ds * 10 ^ 9 / 10 ^ ds.length := by
  by_cases short : ds.length ≤ 9
  · have scale : 10 ^ 9 = 10 ^ (9 - ds.length) * 10 ^ ds.length := by
      rw [← Nat.pow_add]
      congr 1
      omega
    rw [List.take_of_length_le short, scale, ← Nat.mul_assoc,
      Nat.mul_div_cancel _ (Nat.pow_pos (by decide))]
  · have length : (ds.take 9).length = 9 := by
      rw [List.length_take]
      omega
    have below : ofDigits (ds.drop 9) < 10 ^ (ds.drop 9).length :=
      ofDigits_lt fun c member => digits c (List.mem_of_mem_drop member)
    have value := ofDigits_append (ds.take 9) (ds.drop 9)
    rw [List.take_append_drop] at value
    have scale : 10 ^ ds.length = 10 ^ (ds.drop 9).length * 10 ^ 9 := by
      rw [← Nat.pow_add, List.length_drop]
      congr 1
      omega
    rw [length, Nat.sub_self, Nat.pow_zero, Nat.mul_one, scale,
      Nat.mul_div_mul_right _ _ (Nat.pow_pos (by decide)), value, Nat.mul_comm,
      Nat.mul_add_div (Nat.pow_pos (by decide)), Nat.div_eq_of_lt below, Nat.add_zero]

theorem FractionForm.lt {text : List Char} {n : Nat} (form : FractionForm text n) : n < 10 ^ 9 := by
  cases form with
  | none => decide
  | digits number =>
    have below := ofDigits_lt number.digits
    rw [number.value] at below
    exact Nat.div_lt_of_lt_mul (Nat.mul_lt_mul_of_pos_right below (by decide))

theorem FractionForm.noDigit {text rest : List Char} {n : Nat} (form : FractionForm text n)
    (stop : NoDigit rest) : NoDigit (text ++ rest) := by
  cases form with
  | none => exact stop
  | digits number =>
    intro c first
    obtain rfl := Option.some.inj first
    rfl

theorem readFraction?_sound {n : Nat} {s rest : List Char}
    (h : readFraction? s = some (n, rest)) :
    ∃ text, FractionForm text n ∧ s = text ++ rest := by
  unfold readFraction? at h
  split at h
  · next later =>
    simp only at h
    split at h
    · cases h
    · next nonempty =>
      cases h
      have digits : ∀ c ∈ later.takeWhile Char.isDigit, c.isDigit := fun c member =>
        List.all_eq_true.mp List.all_takeWhile c member
      rw [nanoseconds_take digits]
      refine ⟨_, .digits ⟨nonempty, digits, rfl⟩, ?_⟩
      have split := List.prefix_iff_eq_append.mp
        (List.takeWhile_prefix (l := later) Char.isDigit)
      rw [List.cons_append, split]
  · cases h
    exact ⟨[], .none, rfl⟩

theorem readFraction?_complete {n : Nat} {text rest : List Char} (form : FractionForm text n)
    (stop : NoDigit rest) (noPoint : ∀ c ∈ rest.head?, c ≠ '.') :
    readFraction? (text ++ rest) = some (n, rest) := by
  cases form with
  | none =>
    cases rest with
    | nil => rfl
    | cons c later =>
      rw [List.nil_append, readFraction?.eq_def]
      split
      · next same =>
        obtain ⟨rfl, -⟩ := List.cons.inj same
        exact absurd rfl (noPoint '.' rfl)
      · rfl
  | @digits ds n number =>
    have run := (span_digits number.digits stop).1
    have value := nanoseconds_take number.digits
    rw [number.value] at value
    show readFraction? ('.' :: (ds ++ rest)) = _
    simp only [readFraction?, run, if_neg number.nonempty, value, List.drop_left]

/-! ### Reading dates -/

theorem ofYmd?_eq_some_iff {year : Int} {month day : Nat} {d : Date} :
    Date.ofYmd? year month day = some d ↔ d.year = year ∧ d.month = month ∧ d.day = day := by
  constructor
  · intro h
    unfold Date.ofYmd? at h
    split at h
    · split at h
      · split at h
        · cases h
          exact ⟨rfl, rfl, rfl⟩
        · cases h
      · cases h
    · cases h
  · rintro ⟨rfl, rfl, rfl⟩
    exact Date.ofYmd?_self d

theorem readDay?_sound {s rest : List Char} {d : Date} (h : readDay? s = some (d, rest)) :
    ∃ tokens, DayTokens .loose d tokens ∧ Spaced Layout.loose.gap tokens s rest := by
  simp only [readDay?, Option.bind_eq_bind, Option.bind_eq_some_iff, Option.pure_def,
    Option.some.injEq, Prod.exists, Prod.mk.injEq] at h
  obtain ⟨year, s₁, readYear, s₂, first, month, s₃, readMonth, s₄, second, day, s₅, readDay, e,
    valid, rfl, rfl⟩ := h
  obtain ⟨rfl, rfl, rfl⟩ := ofYmd?_eq_some_iff.mp valid
  obtain ⟨yearText, yearForm, spaceYear⟩ := readYear?_sound readYear
  obtain ⟨monthText, monthForm, spaceMonth⟩ := readField?_sound readMonth
  obtain ⟨dayText, dayForm, spaceDay⟩ := readField?_sound readDay
  refine ⟨_, .intro yearForm monthForm dayForm, ?_⟩
  exact spaced_append.mpr ⟨s₁, spaceYear, spaced_append.mpr ⟨s₂, readSeparator?_sound first,
    spaced_append.mpr ⟨s₃, spaceMonth, spaced_append.mpr ⟨s₄, readSeparator?_sound second,
      spaceDay⟩⟩⟩⟩

theorem readDay?_complete {s rest : List Char} {d : Date} {tokens : List (List Char)}
    (form : DayTokens .loose d tokens) (spaced : Spaced Layout.loose.gap tokens s rest)
    (stop : NoDigit rest) : readDay? s = some (d, rest) := by
  obtain ⟨yearForm, monthForm, dayForm⟩ := form
  obtain _ | @⟨u₁, _, _, _, _, blank₁, _ | @⟨u₂, _, _, _, _, blank₂, _ | @⟨u₃, _, _, _, _, blank₃,
    _ | @⟨u₄, _, _, _, _, blank₄, _ | @⟨u₅, _, _, _, _, blank₅, _ | _⟩⟩⟩⟩⟩ := spaced
  simp only [readDay?, readYear?_complete blank₁ yearForm (noDigit_separator '-' blank₂ rfl),
    readSeparator?_complete '-' blank₂ rfl,
    readField?_complete blank₃ monthForm (noDigit_separator '-' blank₄ rfl),
    readSeparator?_complete '-' blank₄ rfl,
    readField?_complete blank₅ dayForm stop, Option.bind_eq_bind, Option.bind_some,
    Date.ofYmd?_self, Option.pure_def]

/-! ### Reading times -/

theorem ofFields?_eq_some_iff {hour minute second nanosecond : Nat} {t : Time}
    (fraction : nanosecond < 10 ^ 9) :
    Time.ofFields? hour minute (leapSecond second nanosecond).1 (leapSecond second nanosecond).2 =
        some t ↔
      t.hour = hour ∧ t.minute = minute ∧ t.second + t.nanosecond / 10 ^ 9 = second ∧
        t.nanosecond % 10 ^ 9 = nanosecond := by
  constructor
  · intro h
    unfold leapSecond at h
    split at h
    · next leap =>
      unfold Time.ofFields? at h
      split at h
      · cases h
        refine ⟨rfl, rfl, ?_, ?_⟩ <;> simp only <;> omega
      · cases h
    · next plain =>
      unfold Time.ofFields? at h
      split at h
      · cases h
        refine ⟨rfl, rfl, ?_, ?_⟩ <;> simp only <;> omega
      · cases h
  · rintro ⟨rfl, rfl, rfl, rfl⟩
    have range := t.nanosecond_lt
    have low := t.second_lt
    have same : leapSecond (t.second + t.nanosecond / 10 ^ 9) (t.nanosecond % 10 ^ 9) =
        (t.second, t.nanosecond) := by
      unfold leapSecond
      split
      · refine Prod.ext ?_ ?_ <;> simp only <;> omega
      · refine Prod.ext ?_ ?_ <;> simp only <;> omega
    rw [same]
    exact Time.ofFields?_self t

theorem readTime?_sound {s rest : List Char} {t : Time} (h : readTime? s = some (t, rest)) :
    ∃ tokens, TimeTokens .loose t tokens ∧ Spaced Layout.loose.gap tokens s rest := by
  simp only [readTime?, Option.bind_eq_bind, Option.bind_eq_some_iff, Option.pure_def,
    Option.some.injEq, Prod.exists, Prod.mk.injEq] at h
  obtain ⟨hour, s₁, readHour, s₂, first, minute, s₃, readMinute, s₄, later, second, s₅, readSecond,
    nanosecond, s₆, readFraction, e, valid, rfl, rfl⟩ := h
  obtain ⟨fraction, fractionForm, rfl⟩ := readFraction?_sound readFraction
  obtain ⟨rfl, rfl, rfl, rfl⟩ := (ofFields?_eq_some_iff fractionForm.lt).mp valid
  obtain ⟨hourText, hourForm, spaceHour⟩ := readField?_sound readHour
  obtain ⟨minuteText, minuteForm, spaceMinute⟩ := readField?_sound readMinute
  obtain ⟨secondText, secondForm, spaceSecond⟩ := readField?_sound readSecond
  refine ⟨_, .intro hourForm minuteForm secondForm fractionForm, ?_⟩
  refine spaced_append.mpr ⟨s₁, spaceHour, spaced_append.mpr ⟨s₂, readSeparator?_sound first,
    spaced_append.mpr ⟨s₃, spaceMinute, spaced_append.mpr ⟨s₄, readSeparator?_sound later, ?_⟩⟩⟩⟩
  -- The fraction belongs to the token of the second: no gap may come before it.
  obtain _ | @⟨u, _, _, _, _, blank, _ | _⟩ := spaceSecond
  rw [← List.append_assoc secondText]
  exact .cons blank .nil

theorem readTime?_complete {s rest : List Char} {t : Time} {tokens : List (List Char)}
    (form : TimeTokens .loose t tokens) (spaced : Spaced Layout.loose.gap tokens s rest)
    (blank : ∀ c ∈ rest, isBlank c) : readTime? s = some (t, rest) := by
  obtain @⟨hour, minute, second, fraction, hourForm, minuteForm, secondForm, fractionForm⟩ := form
  obtain _ | @⟨u₁, _, _, _, _, blank₁, _ | @⟨u₂, _, _, _, _, blank₂, _ | @⟨u₃, _, _, _, _, blank₃,
    _ | @⟨u₄, _, _, _, _, blank₄, _ | @⟨u₅, _, _, _, _, blank₅, _ | _⟩⟩⟩⟩⟩ := spaced
  have stop := noDigit_blank blank
  have noPoint : ∀ c ∈ rest.head?, c ≠ '.' := by
    rintro c first rfl
    exact absurd (blank '.' (List.mem_of_mem_head? first)) (by decide)
  have afterSecond := fractionForm.noDigit stop
  have valid := (ofFields?_eq_some_iff (t := t) fractionForm.lt).mpr ⟨rfl, rfl, rfl, rfl⟩
  simp only [readTime?, List.append_assoc,
    readField?_complete blank₁ hourForm (noDigit_separator ':' blank₂ rfl),
    readSeparator?_complete ':' blank₂ rfl,
    readField?_complete blank₃ minuteForm (noDigit_separator ':' blank₄ rfl),
    readSeparator?_complete ':' blank₄ rfl,
    readField?_complete blank₅ secondForm afterSecond,
    readFraction?_complete fractionForm stop noPoint, Option.bind_eq_bind, Option.bind_some,
    valid, Option.pure_def]

end Calendar

open Calendar

theorem Date.read?_eq_some_iff {s : List Char} {d : Date} :
    Date.read? s = some d ↔ DateForm .loose s d := by
  constructor
  · intro h
    simp only [Date.read?, Option.bind_eq_bind, Option.bind_eq_some_iff, Prod.exists] at h
    obtain ⟨e, trail, read, h⟩ := h
    split at h
    · next blank =>
      cases h
      obtain ⟨tokens, form, spaced⟩ := readDay?_sound read
      exact ⟨tokens, trail, form, spaced, List.all_eq_true.mp blank⟩
    · cases h
  · rintro ⟨tokens, trail, form, spaced, blank⟩
    have read := readDay?_complete form spaced (noDigit_blank blank)
    have all : trail.all isBlank := List.all_eq_true.mpr blank
    simp only [Date.read?, read, Option.bind_eq_bind, Option.bind_some, if_pos all]

theorem Timestamp.read?_eq_some_iff {s : List Char} {t : Timestamp} :
    Timestamp.read? s = some t ↔ TimestampForm .loose s t := by
  constructor
  · intro h
    simp only [Timestamp.read?, Option.bind_eq_bind, Option.bind_eq_some_iff, Prod.exists] at h
    obtain ⟨date, s₁, readDate, s₂, mark, time, trail, readTime, h⟩ := h
    split at h
    · next blank =>
      cases h
      obtain ⟨day, dayForm, spaceDay⟩ := readDay?_sound readDate
      obtain ⟨clock, timeForm, spaceTime⟩ := readTime?_sound readTime
      refine ⟨day, clock, trail, dayForm, timeForm, ?_, List.all_eq_true.mp blank⟩
      exact spaced_append.mpr ⟨s₁, spaceDay,
        spaced_append.mpr ⟨s₂, readSeparator?_sound mark, spaceTime⟩⟩
    · cases h
  · rintro ⟨day, clock, trail, dayForm, timeForm, spaced, blank⟩
    obtain ⟨s₁, spaceDay, _ | @⟨u, _, s₂, _, _, gap, spaceTime⟩⟩ := spaced_append.mp spaced
    have stop : NoDigit (u ++ (['T'] ++ s₂)) := noDigit_separator 'T' gap rfl
    have all : trail.all isBlank := List.all_eq_true.mpr blank
    simp only [Timestamp.read?, readDay?_complete dayForm spaceDay stop,
      readSeparator?_complete 'T' gap rfl,
      readTime?_complete timeForm spaceTime blank, Option.bind_eq_bind, Option.bind_some,
      if_pos all]

end SqlFragment
