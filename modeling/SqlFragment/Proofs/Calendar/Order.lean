import Mathlib.Data.Prod.Lex
import SqlFragment.Dialect.Literal
import SqlFragment.Proofs.Calendar.Printed
import SqlFragment.Proofs.Dialect.Names

/-!
# The order of dates and timestamps

Dates and times are ordered by their fields in turn. SQLite has no type for them and compares their
texts byte by byte. Fields of fixed width keep the order, and so does the fraction of a second,
which may end early. Main statement: `literals_keep_calendar_order`.
-/

namespace SqlFragment

open Text Numeral Calendar

/-! ### Chronological order -/

namespace Date

def fields (d : Date) : Int ×ₗ Nat ×ₗ Nat := toLex (d.year, toLex (d.month, d.day))

theorem fields_injective : Function.Injective fields := by
  rintro ⟨_, _, _, _, _, _⟩ ⟨_, _, _, _, _, _⟩ same
  cases same
  rfl

instance : LinearOrder Date := LinearOrder.lift' fields fields_injective

theorem lt_iff {x y : Date} :
    x < y ↔ x.year < y.year ∨ x.year = y.year ∧
      (x.month < y.month ∨ x.month = y.month ∧ x.day < y.day) := by
  show x.fields < y.fields ↔ _
  rw [fields, fields, Prod.Lex.toLex_lt_toLex, Prod.Lex.toLex_lt_toLex]

/-- Years that are printed with four digits and no sign. -/
def HasPlainYear (d : Date) : Prop := 0 ≤ d.year ∧ d.year ≤ 9999

instance (d : Date) : Decidable d.HasPlainYear := inferInstanceAs (Decidable (_ ∧ _))

end Date

namespace Time

def fields (t : Time) : Nat ×ₗ Nat ×ₗ Nat ×ₗ Nat :=
  toLex (t.hour, toLex (t.minute, toLex (t.second, t.nanosecond)))

theorem fields_injective : Function.Injective fields := by
  rintro ⟨_, _, _, _, _, _, _, _⟩ ⟨_, _, _, _, _, _, _, _⟩ same
  cases same
  rfl

/-- A leap second has more nanoseconds than the rest of second 59, so its minute ends with it. -/
instance : LinearOrder Time := LinearOrder.lift' fields fields_injective

theorem lt_iff {x y : Time} :
    x < y ↔ x.hour < y.hour ∨ x.hour = y.hour ∧
      (x.minute < y.minute ∨ x.minute = y.minute ∧
        (x.second < y.second ∨ x.second = y.second ∧ x.nanosecond < y.nanosecond)) := by
  show x.fields < y.fields ↔ _
  rw [fields, fields, Prod.Lex.toLex_lt_toLex, Prod.Lex.toLex_lt_toLex, Prod.Lex.toLex_lt_toLex]

end Time

namespace Timestamp

theorem fields_injective : Function.Injective fun t : Timestamp => toLex (t.date, t.time) := by
  rintro ⟨_, _⟩ ⟨_, _⟩ same
  cases same
  rfl

instance : LinearOrder Timestamp := LinearOrder.lift' _ fields_injective

theorem lt_iff {x y : Timestamp} : x < y ↔ x.date < y.date ∨ x.date = y.date ∧ x.time < y.time :=
  Prod.Lex.toLex_lt_toLex

end Timestamp

/-! ### The order of texts -/

theorem append_lt_append {a b : List Char} (less : a < b) (width : a.length = b.length)
    (x y : List Char) : a ++ x < b ++ y := by
  induction less with
  | nil => cases width
  | rel less => exact .rel less
  | cons _ ih => exact .cons (ih (Nat.succ.inj width))

theorem ofDigits_singleton {c : Char} (digit : c.isDigit) : ofDigits [c] + 48 = c.toNat := by
  simp only [Char.isDigit, Bool.and_eq_true, decide_eq_true_eq] at digit
  have low : 48 ≤ c.toNat := UInt32.le_iff_toNat_le.mp digit.1
  show 10 * 0 + (c.toNat - 48) + 48 = c.toNat
  omega

theorem ofDigits_cons (c : Char) (ds : List Char) :
    ofDigits (c :: ds) = ofDigits [c] * 10 ^ ds.length + ofDigits ds :=
  ofDigits_append [c] ds

/-- Of two numbers with a first digit and a rest below one unit of it, the first digits decide, and
then the rests. -/
theorem first_lt_or_rest_lt {d e v w unit unit' : Nat} (below : w < unit')
    (less : (d * unit + v) * unit' < (e * unit' + w) * unit) :
    d < e ∨ d = e ∧ v * unit' < w * unit := by
  have left : (d * unit + v) * unit' = d * (unit * unit') + v * unit' := by
    rw [Nat.add_mul, Nat.mul_assoc]
  have right : (e * unit' + w) * unit = e * (unit * unit') + w * unit := by
    rw [Nat.add_mul, Nat.mul_assoc, Nat.mul_comm unit' unit]
  have rest : w * unit ≤ unit * unit' := by
    rw [Nat.mul_comm unit unit']
    exact Nat.mul_le_mul_right unit (Nat.le_of_lt below)
  rw [left, right] at less
  rcases Nat.lt_trichotomy d e with first | rfl | first
  · exact Or.inl first
  · exact Or.inr ⟨rfl, Nat.lt_of_add_lt_add_left less⟩
  · have above := Nat.mul_le_mul_right (unit * unit') (Nat.succ_le_of_lt first)
    rw [Nat.succ_mul] at above
    omega

theorem digits_lt {ds es : List Char} (digits : ∀ c ∈ ds, c.isDigit)
    (others : ∀ c ∈ es, c.isDigit)
    (less : ofDigits ds * 10 ^ es.length < ofDigits es * 10 ^ ds.length) : ds < es := by
  induction ds generalizing es with
  | nil =>
    cases es with
    | nil => exact absurd less (Nat.lt_irrefl _)
    | cons e es => exact .nil
  | cons d ds ih =>
    cases es with
    | nil =>
      have none : ofDigits [] = 0 := rfl
      rw [none, Nat.zero_mul] at less
      exact absurd less (Nat.not_lt_zero _)
    | cons e es =>
      obtain ⟨digit, digits⟩ := List.forall_mem_cons.mp digits
      obtain ⟨other, others⟩ := List.forall_mem_cons.mp others
      have code := ofDigits_singleton digit
      have code' := ofDigits_singleton other
      rw [ofDigits_cons d, ofDigits_cons e, List.length_cons, List.length_cons, Nat.pow_succ,
        Nat.pow_succ, ← Nat.mul_assoc, ← Nat.mul_assoc] at less
      rcases first_lt_or_rest_lt (ofDigits_lt others) (Nat.lt_of_mul_lt_mul_right less) with
        first | ⟨same, rest⟩
      · have lower : d.toNat < e.toNat := by omega
        exact .rel (UInt32.lt_iff_toNat_lt.mpr lower)
      · have equal : d.toNat = e.toNat := by omega
        rw [Char.toNat_inj.mp equal]
        exact .cons (ih digits others rest)

theorem Calendar.IsNumber.lt {ds es : List Char} {m n : Nat} (number : IsNumber ds m)
    (other : IsNumber es n) (width : ds.length = es.length) (less : m < n) : ds < es := by
  refine digits_lt number.digits other.digits ?_
  rw [number.value, other.value, width]
  exact Nat.mul_lt_mul_of_pos_right less (Nat.pow_pos (by decide))

theorem padded_append_lt {width m n : Nat} (pos : 0 < width) (less : m < n) (small : n < 10 ^ width)
    (x y : List Char) : padded width m ++ x < padded width n ++ y := by
  have same : (padded width m).length = (padded width n).length := by
    rw [length_padded pos (Nat.lt_trans less small), length_padded pos small]
  exact append_lt_append ((isNumber_padded width m).lt (isNumber_padded width n) same less) same x y

theorem padded_lt {width m n : Nat} (pos : 0 < width) (less : m < n) (small : n < 10 ^ width) :
    padded width m < padded width n := by
  have longer := padded_append_lt pos less small [] []
  rwa [List.append_nil, List.append_nil] at longer

theorem mul_pow_lt_of_nanoseconds_lt {a b i j : Nat}
    (less : a * 10 ^ 9 / 10 ^ i < b * 10 ^ 9 / 10 ^ j) : a * 10 ^ j < b * 10 ^ i := by
  by_contra none
  refine Nat.not_le_of_lt less ((Nat.le_div_iff_mul_le (Nat.pow_pos (by decide))).mpr ?_)
  refine Nat.le_of_mul_le_mul_right ?_ (Nat.pow_pos (by decide) : 0 < 10 ^ j)
  calc b * 10 ^ 9 / 10 ^ j * 10 ^ i * 10 ^ j
      = b * 10 ^ 9 / 10 ^ j * 10 ^ j * 10 ^ i := Nat.mul_right_comm ..
    _ ≤ b * 10 ^ 9 * 10 ^ i := Nat.mul_le_mul_right _ (Nat.div_mul_le_self ..)
    _ = b * 10 ^ i * 10 ^ 9 := Nat.mul_right_comm ..
    _ ≤ a * 10 ^ j * 10 ^ 9 := Nat.mul_le_mul_right _ (Nat.le_of_not_lt none)
    _ = a * 10 ^ 9 * 10 ^ j := Nat.mul_right_comm ..

theorem Calendar.FractionForm.lt_of_lt {s t : List Char} {m n : Nat} (form : FractionForm s m)
    (other : FractionForm t n) (less : m < n) : s < t := by
  cases other with
  | none => exact absurd less (Nat.not_lt_zero _)
  | @digits es b another =>
    cases form with
    | none => exact .nil
    | @digits ds a number =>
      refine .cons (digits_lt number.digits another.digits ?_)
      rw [number.value, another.value]
      exact mul_pow_lt_of_nanoseconds_lt less

/-! ### Printed texts keep the order -/

theorem yearText_of_plain {year : Int} (plain : 0 ≤ year ∧ year ≤ 9999) :
    yearText year = padded 4 year.natAbs := by
  rw [yearText, if_neg (by omega), if_neg (by omega)]

theorem Date.length_chars {d : Date} (plain : d.HasPlainYear) : d.chars.length = 10 := by
  have month := d.month_range
  have day := day_le d
  obtain ⟨low, high⟩ := plain
  simp only [chars, yearText_of_plain ⟨low, high⟩, List.length_append, List.length_cons]
  rw [length_padded (by decide) (by omega), length_padded (by decide) (by omega),
    length_padded (by decide) (by omega)]

theorem Date.chars_lt {x y : Date} (plain : x.HasPlainYear) (plain' : y.HasPlainYear)
    (less : x < y) : x.chars < y.chars := by
  have month_range := y.month_range
  have day_range := day_le y
  obtain ⟨low, high⟩ := plain'
  simp only [chars, yearText_of_plain plain, yearText_of_plain ⟨low, high⟩]
  rcases lt_iff.mp less with year | ⟨year, month | ⟨month, day⟩⟩
  · have nonnegative := plain.1
    exact padded_append_lt (by decide) (by omega) (by omega) _ _
  · rw [year]
    exact List.append_left_lt (.cons (padded_append_lt (by decide) month (by omega) _ _))
  · rw [year, month]
    exact List.append_left_lt (.cons (List.append_left_lt
      (.cons (padded_lt (by decide) day (by omega)))))

/-- A leap second is printed as the second after second 59, and its fraction starts anew. -/
theorem Time.second_lt_or_fraction_lt {x y : Time}
    (less : x.second < y.second ∨ x.second = y.second ∧ x.nanosecond < y.nanosecond) :
    x.second + x.nanosecond / 10 ^ 9 < y.second + y.nanosecond / 10 ^ 9 ∨
      x.second + x.nanosecond / 10 ^ 9 = y.second + y.nanosecond / 10 ^ 9 ∧
        x.nanosecond % 10 ^ 9 < y.nanosecond % 10 ^ 9 := by
  have second := y.second_lt
  have leap := x.nanosecond_lt
  have leap' := y.nanosecond_lt
  omega

theorem Time.chars_lt {x y : Time} (less : x < y) : x.chars < y.chars := by
  have hour_range := y.hour_lt
  have minute_range := y.minute_lt
  have second_range := y.second_lt
  have leap := y.nanosecond_lt
  simp only [chars]
  rcases lt_iff.mp less with hour | ⟨hour, minute | ⟨minute, rest⟩⟩
  · exact padded_append_lt (by decide) hour (by omega) _ _
  · rw [hour]
    exact List.append_left_lt (.cons (padded_append_lt (by decide) minute (by omega) _ _))
  · rw [hour, minute]
    refine List.append_left_lt (.cons (List.append_left_lt (.cons ?_)))
    rcases second_lt_or_fraction_lt rest with second | ⟨second, fraction⟩
    · exact padded_append_lt (by decide) second (by omega) _ _
    · rw [second]
      have form := fractionForm_fractionText (Nat.mod_lt x.nanosecond (by decide : 0 < 10 ^ 9))
      have form' := fractionForm_fractionText (Nat.mod_lt y.nanosecond (by decide : 0 < 10 ^ 9))
      exact List.append_left_lt (form.lt_of_lt form' fraction)

theorem Timestamp.chars_lt {x y : Timestamp} (plain : x.date.HasPlainYear)
    (plain' : y.date.HasPlainYear) (less : x < y) (separator : Char) :
    x.chars separator < y.chars separator := by
  rcases lt_iff.mp less with date | ⟨date, time⟩
  · refine append_lt_append (Date.chars_lt plain plain' date) ?_ _ _
    rw [Date.length_chars plain, Date.length_chars plain']
  · rw [chars, chars, date]
    exact List.append_left_lt (.cons (Time.chars_lt time))

/-! ### Stored bytes -/

/-- The string that a literal stands for, in UTF-8. -/
def storedBytes? (literal : String) : Option (List UInt8) :=
  match readEnclosed '\'' literal.toList with
  | some (body, []) => some (body.flatMap String.utf8EncodeChar)
  | _ => none

def StoredBefore (literal other : String) : Prop :=
  ∃ a b, storedBytes? literal = some a ∧ storedBytes? other = some b ∧ a < b

theorem storedBytes?_string (s : List Char) :
    storedBytes? (Dialect.string (String.ofList s)) = some (s.flatMap String.utf8EncodeChar) := by
  have alone : [].head? ≠ some '\'' := nofun
  have read := readEnclosed_string (String.ofList s) alone
  rw [List.append_nil, String.toList_ofList] at read
  rw [storedBytes?, read]

theorem utf8_lt {s t : List Char} (ascii : ∀ c ∈ s, c.utf8Size = 1)
    (ascii' : ∀ c ∈ t, c.utf8Size = 1) (less : s < t) :
    s.flatMap String.utf8EncodeChar < t.flatMap String.utf8EncodeChar := by
  induction less with
  | @nil c t =>
    obtain ⟨one, -⟩ := List.forall_mem_cons.mp ascii'
    rw [List.flatMap_cons, String.utf8EncodeChar_eq_singleton one]
    exact .nil
  | @rel c s d t less =>
    obtain ⟨one, -⟩ := List.forall_mem_cons.mp ascii
    obtain ⟨one', -⟩ := List.forall_mem_cons.mp ascii'
    have low := UInt32.le_iff_toNat_le.mp (Char.utf8Size_eq_one_iff.mp one)
    have low' := UInt32.le_iff_toNat_le.mp (Char.utf8Size_eq_one_iff.mp one')
    have codes : c.val.toNat < d.val.toNat := less
    rw [List.flatMap_cons, List.flatMap_cons, String.utf8EncodeChar_eq_singleton one,
      String.utf8EncodeChar_eq_singleton one']
    refine .rel (UInt8.lt_iff_toNat_lt.mpr ?_)
    rw [UInt32.toNat_toUInt8, UInt32.toNat_toUInt8]
    have last : (127 : UInt32).toNat = 127 := rfl
    omega
  | @cons c s t _ ih =>
    obtain ⟨-, ascii⟩ := List.forall_mem_cons.mp ascii
    obtain ⟨-, ascii'⟩ := List.forall_mem_cons.mp ascii'
    exact List.append_left_lt (ih ascii ascii')

theorem storedBefore_iff {α : Type} [LinearOrder α] {text : α → List Char} {within : α → Prop}
    (ascii : ∀ x, ∀ c ∈ text x, c.utf8Size = 1)
    (keeps : ∀ x y, within x → within y → x < y → text x < text y) {x y : α} (hx : within x)
    (hy : within y) :
    StoredBefore (Dialect.string (String.ofList (text x)))
      (Dialect.string (String.ofList (text y))) ↔ x < y := by
  have bytes {x y : α} (hx : within x) (hy : within y) (less : x < y) :=
    utf8_lt (ascii x) (ascii y) (keeps x y hx hy less)
  constructor
  · rintro ⟨a, b, first, second, before⟩
    rw [storedBytes?_string, Option.some.injEq] at first second
    subst first second
    rcases lt_trichotomy x y with less | same | more
    · exact less
    · rw [same] at before
      exact absurd before (List.lt_irrefl _)
    · exact absurd before (List.lt_asymm (bytes hy hx more))
  · exact fun less => ⟨_, _, storedBytes?_string _, storedBytes?_string _, bytes hx hy less⟩

theorem Calendar.IsNumber.ascii {ds : List Char} {n : Nat} (number : IsNumber ds n) :
    ∀ c ∈ ds, c.utf8Size = 1 := by
  intro c member
  have digit := number.digits c member
  simp only [Char.isDigit, Bool.and_eq_true, decide_eq_true_eq] at digit
  exact Char.utf8Size_eq_one_iff.mpr (UInt32.le_trans digit.2 (by decide))

theorem ascii_padded (width n : Nat) : ∀ c ∈ padded width n, c.utf8Size = 1 :=
  (isNumber_padded width n).ascii

theorem Calendar.YearForm.ascii {l : Layout} {s : List Char} {year : Int}
    (form : YearForm l s year) : ∀ c ∈ s, c.utf8Size = 1 := by
  cases form with
  | plain number => exact number.ascii
  | minus number | plus number => exact List.forall_mem_cons.mpr ⟨rfl, number.ascii⟩

theorem Calendar.FractionForm.ascii {s : List Char} {n : Nat} (form : FractionForm s n) :
    ∀ c ∈ s, c.utf8Size = 1 := by
  cases form with
  | none => exact nofun
  | digits number => exact List.forall_mem_cons.mpr ⟨rfl, number.ascii⟩

theorem Date.ascii_chars (d : Date) : ∀ c ∈ d.chars, c.utf8Size = 1 := by
  simp only [chars, List.forall_mem_append, List.forall_mem_cons]
  exact ⟨(yearForm_yearText d.year).ascii, rfl, ascii_padded 2 d.month, rfl, ascii_padded 2 d.day⟩

theorem Time.ascii_chars (t : Time) : ∀ c ∈ t.chars, c.utf8Size = 1 := by
  have fraction := fractionForm_fractionText (Nat.mod_lt t.nanosecond (by decide : 0 < 10 ^ 9))
  simp only [chars, List.forall_mem_append, List.forall_mem_cons]
  exact ⟨ascii_padded 2 _, rfl, ascii_padded 2 _, rfl, ascii_padded 2 _, fraction.ascii⟩

theorem Timestamp.ascii_chars (t : Timestamp) : ∀ c ∈ t.chars ' ', c.utf8Size = 1 := by
  simp only [chars, List.forall_mem_append, List.forall_mem_cons]
  exact ⟨t.date.ascii_chars, rfl, t.time.ascii_chars⟩

/-! ### Literals -/

theorem date_injective {x y : Date} (same : Dialect.date x = Dialect.date y) : x = y := by
  have chars : x.chars = y.chars := String.ofList_injective (string_injective same)
  have read := Date.read?_chars x
  rw [chars, Date.read?_chars y] at read
  exact (Option.some.inj read).symm

/-- There is no blank in a date, so the first one in a timestamp stands behind its date. -/
theorem takeWhile_chars (t : Timestamp) :
    (t.chars ' ').takeWhile (fun c => !isBlank c) = t.date.chars := by
  have visible : ∀ c ∈ t.date.chars, !isBlank c := by
    intro c member
    rw [(dateForm_chars t.date).not_blank c member]
    rfl
  rw [Timestamp.chars, List.takeWhile_append_of_pos visible, List.takeWhile_cons_of_neg (by decide),
    List.append_nil]

theorem timestamp_injective {x y : Timestamp} (same : Dialect.timestamp x = Dialect.timestamp y) :
    x = y := by
  have chars : x.chars ' ' = y.chars ' ' := String.ofList_injective (string_injective same)
  have date : x.date.chars = y.date.chars := by rw [← takeWhile_chars, chars, takeWhile_chars]
  have time : x.time.chars = y.time.chars := by
    rw [Timestamp.chars, Timestamp.chars, date] at chars
    exact (List.cons.inj (List.append_cancel_left chars)).2
  have read := Timestamp.read?_chars x
  rw [Timestamp.chars, date, time, ← Timestamp.chars, Timestamp.read?_chars y] at read
  exact (Option.some.inj read).symm

/-- The day that a value belongs to. -/
def Value.day? : Value → Option Date
  | .date d => some d
  | .timestamp t => some t.date
  | _ => none

theorem literal_day (d : Dialect) {v : Value} {x : Date} (day : v.day? = some x) :
    d.literal (some .date) v = Dialect.date x := by
  cases v <;> cases day <;> rfl

/-- Two dates, or two timestamps, have the same literal only if they are the same. In the years 0 to
9999 their literals are stored in chronological order, with a fraction or without, and with a leap
second in its place. For a date column a timestamp counts as its date. -/
theorem literals_keep_calendar_order (d : Dialect) :
    (∀ x y : Date, d.literal none (.date x) = d.literal none (.date y) ↔ x = y) ∧
    (∀ x y : Timestamp, d.literal none (.timestamp x) = d.literal none (.timestamp y) ↔ x = y) ∧
    (∀ x y : Date, x.HasPlainYear → y.HasPlainYear →
      (StoredBefore (d.literal none (.date x)) (d.literal none (.date y)) ↔ x < y)) ∧
    (∀ x y : Timestamp, x.date.HasPlainYear → y.date.HasPlainYear →
      (StoredBefore (d.literal none (.timestamp x)) (d.literal none (.timestamp y)) ↔ x < y)) ∧
    ∀ (v w : Value) (x y : Date), v.day? = some x → w.day? = some y →
      (d.literal (some .date) v = d.literal (some .date) w ↔ x = y) ∧
      (x.HasPlainYear → y.HasPlainYear →
        (StoredBefore (d.literal (some .date) v) (d.literal (some .date) w) ↔ x < y)) := by
  have dates {x y : Date} (plain : x.HasPlainYear) (plain' : y.HasPlainYear) :
      StoredBefore (Dialect.date x) (Dialect.date y) ↔ x < y :=
    storedBefore_iff Date.ascii_chars (fun _ _ => Date.chars_lt) plain plain'
  have keeps (x y : Timestamp) (plain : x.date.HasPlainYear) (plain' : y.date.HasPlainYear)
      (less : x < y) : x.chars ' ' < y.chars ' ' := Timestamp.chars_lt plain plain' less ' '
  refine ⟨?_, ?_, fun _ _ => dates, ?_, ?_⟩
  · exact fun x y => ⟨date_injective, congrArg Dialect.date⟩
  · exact fun x y => ⟨timestamp_injective, congrArg Dialect.timestamp⟩
  · exact fun x y plain plain' => storedBefore_iff Timestamp.ascii_chars keeps plain plain'
  · intro v w x y day day'
    rw [literal_day d day, literal_day d day']
    exact ⟨⟨date_injective, congrArg Dialect.date⟩, dates⟩

/-- The last day of June 1972 ended in a leap second. -/
theorem literals_keep_calendar_order_leap :
    let day : Date := ⟨1972, 6, 30, by decide, by decide, by decide⟩
    let next : Date := ⟨1972, 7, 1, by decide, by decide, by decide⟩
    let leap : Timestamp :=
      ⟨day, ⟨23, 59, 59, 1500000000, by decide, by decide, by decide, by decide⟩⟩
    let midnight : Timestamp :=
      ⟨next, ⟨0, 0, 0, 0, by decide, by decide, by decide, by decide⟩⟩
    (Dialect.sqlite.literal none (.timestamp leap) = "'1972-06-30 23:59:60.500'" ∧
      Dialect.sqlite.literal none (.timestamp midnight) = "'1972-07-01 00:00:00'") ∧
    (leap.date.HasPlainYear ∧ midnight.date.HasPlainYear ∧ leap < midnight ∧
      StoredBefore (Dialect.sqlite.literal none (.timestamp leap))
        (Dialect.sqlite.literal none (.timestamp midnight))) ∧
    (Value.day? (.timestamp leap) = some day ∧ Value.day? (.date next) = some next ∧
      Dialect.sqlite.literal (some .date) (.timestamp leap) ≠
        Dialect.sqlite.literal (some .date) (.date next) ∧
      StoredBefore (Dialect.sqlite.literal (some .date) (.timestamp leap))
        (Dialect.sqlite.literal (some .date) (.date next))) := by
  intro day next leap midnight
  obtain ⟨-, -, -, timestamps, mixed⟩ := literals_keep_calendar_order .sqlite
  have before : leap < midnight := by decide
  have plain : day.HasPlainYear := by decide
  have plain' : next.HasPlainYear := by decide
  obtain ⟨equal, less⟩ := mixed (.timestamp leap) (.date next) day next rfl rfl
  exact ⟨⟨by decide +kernel, by decide +kernel⟩,
    ⟨plain, plain', before, (timestamps leap midnight plain plain').mpr before⟩,
    rfl, rfl, mt equal.mp (by decide), (less plain plain').mpr (by decide)⟩

end SqlFragment
