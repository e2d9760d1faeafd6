import SqlFragment.Calendar.Text
import SqlFragment.Proofs.Calendar.Form

namespace SqlFragment

open Text Numeral

namespace Calendar

/-! ### ISO layout is loose -/

theorem YearForm.loose {text : List Char} {year : Int} (form : YearForm .iso text year) :
    YearForm .loose text year := by
  cases form with
  | plain number width => exact .plain number (Nat.le_of_eq width)
  | minus number width => exact .minus number trivial
  | plus number width => exact .plus number trivial

theorem FieldForm.loose {ds : List Char} {n : Nat} (form : FieldForm .iso ds n) :
    FieldForm .loose ds n :=
  ⟨form.number, Nat.le_of_eq form.width⟩

theorem DayTokens.loose {d : Date} {tokens : List (List Char)} (form : DayTokens .iso d tokens) :
    DayTokens .loose d tokens := by
  obtain ⟨year, month, day⟩ := form
  exact .intro year.loose month.loose day.loose

theorem TimeTokens.loose {t : Time} {tokens : List (List Char)} (form : TimeTokens .iso t tokens) :
    TimeTokens .loose t tokens := by
  obtain ⟨hour, minute, second, fraction⟩ := form
  exact .intro hour.loose minute.loose second.loose fraction

theorem gap_loose {u : List Char} (none : Layout.iso.gap u) : Layout.loose.gap u := by
  intro c member
  rw [show u = [] from none] at member
  cases member

theorem Spaced.loose {tokens : List (List Char)} {s rest : List Char}
    (spaced : Spaced Layout.iso.gap tokens s rest) : Spaced Layout.loose.gap tokens s rest := by
  induction spaced with
  | nil => exact .nil
  | cons before next ih => exact .cons (gap_loose before) ih

theorem DateForm.loose {s : List Char} {d : Date} (form : DateForm .iso s d) :
    DateForm .loose s d := by
  obtain ⟨tokens, trail, day, spaced, gap⟩ := form
  exact ⟨tokens, trail, day.loose, spaced.loose, gap_loose gap⟩

theorem TimestampForm.loose {s : List Char} {t : Timestamp} (form : TimestampForm .iso s t) :
    TimestampForm .loose s t := by
  obtain ⟨day, time, trail, dayForm, timeForm, spaced, gap⟩ := form
  exact ⟨day, time, trail, dayForm.loose, timeForm.loose, spaced.loose, gap_loose gap⟩

/-! ### ISO layout has no blanks -/

theorem Spaced.eq_flatten {tokens : List (List Char)} {s rest : List Char}
    (spaced : Spaced Layout.iso.gap tokens s rest) : s = tokens.flatten ++ rest := by
  induction spaced with
  | nil => rfl
  | @cons u token s rest tokens before next ih =>
    rw [show u = [] from before, ih, List.nil_append, List.flatten_cons, List.append_assoc]

theorem IsNumber.not_blank {ds : List Char} {n : Nat} (number : IsNumber ds n) :
    ∀ c ∈ ds, isBlank c = false :=
  fun c member => isBlank_of_isDigit (number.digits c member)

theorem YearForm.not_blank {l : Layout} {text : List Char} {year : Int}
    (form : YearForm l text year) : ∀ c ∈ text, isBlank c = false := by
  cases form with
  | plain number => exact number.not_blank
  | minus number | plus number => exact List.forall_mem_cons.mpr ⟨rfl, number.not_blank⟩

theorem DayTokens.not_blank {l : Layout} {d : Date} {tokens : List (List Char)}
    (form : DayTokens l d tokens) : ∀ token ∈ tokens, ∀ c ∈ token, isBlank c = false := by
  obtain ⟨year, month, day⟩ := form
  have dash : ∀ c ∈ ['-'], isBlank c = false := List.forall_mem_singleton.mpr rfl
  exact List.forall_mem_cons.mpr ⟨year.not_blank, List.forall_mem_cons.mpr ⟨dash,
    List.forall_mem_cons.mpr ⟨month.number.not_blank, List.forall_mem_cons.mpr ⟨dash,
      List.forall_mem_singleton.mpr day.number.not_blank⟩⟩⟩⟩

theorem DateForm.not_blank {s : List Char} {d : Date} (form : DateForm .iso s d) :
    ∀ c ∈ s, isBlank c = false := by
  obtain ⟨tokens, trail, day, spaced, none⟩ := form
  rw [spaced.eq_flatten, show trail = [] from none, List.append_nil]
  intro c member
  obtain ⟨token, among, within⟩ := List.mem_flatten.mp member
  exact day.not_blank token among c within

/-! ### Numbers with zeros in front -/

theorem isNumber_padded (width n : Nat) : IsNumber (padded width n) n where
  nonempty h := digits_ne_nil n (List.append_eq_nil_iff.mp h).2
  digits c member := by
    rcases List.mem_append.mp member with zero | digit
    · rw [List.eq_of_mem_replicate zero]
      rfl
    · exact List.all_eq_true.mp (digits_isDigit n) c digit
  value := by
    have zeros : ofDigits (List.replicate (width - (digits n).length) '0') = 0 := by
      rw [ofDigits, Nat.ofDigitChars_replicate_zero, Nat.mul_zero]
    rw [padded, ofDigits_append, zeros, Nat.zero_mul, Nat.zero_add, ofDigits_digits]

theorem length_padded {width n : Nat} (pos : 0 < width) (small : n < 10 ^ width) :
    (padded width n).length = width := by
  have fits : (digits n).length ≤ width :=
    (Nat.length_toDigits_le_iff (by decide) pos).mpr small
  rw [padded, List.length_append, List.length_replicate]
  omega

theorem le_length_padded (width n : Nat) : width ≤ (padded width n).length := by
  rw [padded, List.length_append, List.length_replicate]
  omega

theorem fieldForm_padded {n : Nat} (small : n < 100) : FieldForm .iso (padded 2 n) n where
  number := isNumber_padded 2 n
  width := length_padded (by decide) small

theorem yearForm_yearText (year : Int) : YearForm .iso (yearText year) year := by
  unfold yearText
  have number := isNumber_padded 4 year.natAbs
  have width := le_length_padded 4 year.natAbs
  split
  · next negative =>
    have form := YearForm.minus (l := .iso) number width
    rwa [show -(year.natAbs : Int) = year by omega] at form
  · next positive =>
    have value : (year.natAbs : Int) = year := by omega
    split
    · have form := YearForm.plus (l := .iso) number width
      rwa [value] at form
    · next small =>
      have exact4 : (padded 4 year.natAbs).length = 4 :=
        length_padded (by decide) (by omega)
      have form := YearForm.plain (l := .iso) number exact4
      rwa [value] at form

theorem fractionForm_padded {width n nanosecond : Nat} (pos : 0 < width) (small : n < 10 ^ width)
    (value : n * 10 ^ 9 / 10 ^ width = nanosecond) :
    FractionForm ('.' :: padded width n) nanosecond := by
  have form := FractionForm.digits (isNumber_padded width n)
  rwa [length_padded pos small, value] at form

theorem fractionForm_fractionText {nanosecond : Nat} (small : nanosecond < 10 ^ 9) :
    FractionForm (fractionText nanosecond) nanosecond := by
  unfold fractionText
  split
  · next zero =>
    rw [zero]
    exact .none
  · split
    · exact fractionForm_padded (by decide) (by omega) (by omega)
    · split
      · exact fractionForm_padded (by decide) (by omega) (by omega)
      · exact fractionForm_padded (by decide) small (by omega)

/-! ### Printed texts -/

theorem spaced_flatten (tokens : List (List Char)) :
    Spaced Layout.iso.gap tokens tokens.flatten [] := by
  induction tokens with
  | nil => exact .nil
  | cons token rest ih => exact .cons (u := []) rfl ih

theorem day_le (d : Date) : d.day ≤ 31 := by
  have days : daysInMonth d.year d.month ≤ 31 := by
    unfold daysInMonth
    repeat' split
    all_goals decide
  exact Nat.le_trans d.day_range.2 days

theorem dayTokens_chars (d : Date) :
    DayTokens .iso d [yearText d.year, ['-'], padded 2 d.month, ['-'], padded 2 d.day] := by
  have month := d.month_range
  have day := day_le d
  exact .intro (yearForm_yearText d.year) (fieldForm_padded (by omega)) (fieldForm_padded (by omega))

theorem timeTokens_chars (t : Time) :
    TimeTokens .iso t [padded 2 t.hour, [':'], padded 2 t.minute, [':'],
      padded 2 (t.second + t.nanosecond / 10 ^ 9) ++ fractionText (t.nanosecond % 10 ^ 9)] := by
  have hour := t.hour_lt
  have minute := t.minute_lt
  have second := t.second_lt
  have nanosecond := t.nanosecond_lt
  exact .intro (fieldForm_padded (by omega)) (fieldForm_padded (by omega))
    (fieldForm_padded (by omega)) (fractionForm_fractionText (Nat.mod_lt _ (by decide)))

theorem dateForm_chars (d : Date) : DateForm .iso d.chars d := by
  refine ⟨_, [], dayTokens_chars d, ?_, rfl⟩
  have spaced := spaced_flatten [yearText d.year, ['-'], padded 2 d.month, ['-'], padded 2 d.day]
  simpa [Date.chars] using spaced

theorem timestampForm_chars (t : Timestamp) : TimestampForm .iso (t.chars 'T') t := by
  refine ⟨_, _, [], dayTokens_chars t.date, timeTokens_chars t.time, ?_, rfl⟩
  have spaced := spaced_flatten
    ([yearText t.date.year, ['-'], padded 2 t.date.month, ['-'], padded 2 t.date.day] ++
      ['T'] :: [padded 2 t.time.hour, [':'], padded 2 t.time.minute, [':'],
        padded 2 (t.time.second + t.time.nanosecond / 10 ^ 9) ++
          fractionText (t.time.nanosecond % 10 ^ 9)])
  simpa [Timestamp.chars, Time.chars, Date.chars] using spaced

end Calendar

open Calendar

theorem Date.read?_chars (d : Date) : Date.read? d.chars = some d :=
  Date.read?_eq_some_iff.mpr (dateForm_chars d).loose

theorem Timestamp.read?_chars (t : Timestamp) : Timestamp.read? (t.chars 'T') = some t :=
  Timestamp.read?_eq_some_iff.mpr (timestampForm_chars t).loose

end SqlFragment
