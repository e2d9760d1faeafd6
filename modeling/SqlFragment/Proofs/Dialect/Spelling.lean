import SqlFragment.Proofs.Dialect.Bare
import SqlFragment.Proofs.Dialect.Numbers

namespace SqlFragment

open Text Numeral

/-! ### Tokens that go bare -/

theorem isBlank_of_numeral {c : Char} (part : c.isDigit ∨ c ∈ ['+', '-', 'e', 'E', '.']) :
    isBlank c = false := by
  have marks : ['+', '-', 'e', 'E', '.'].all (!isBlank ·) := by decide
  obtain digit | mark := part
  · exact isBlank_of_isDigit digit
  · simpa using List.all_eq_true.mp marks c mark

theorem visible_ofInt (i : Int) : ∀ c ∈ ofInt i, isBlank c = false :=
  fun c member => isBlank_of_numeral ((decimalForm_ofInt i).chars c member)

theorem GoesBare.again {d : Dialect} {target : Option ColumnType} {s : List Char} {token : String}
    (bare : GoesBare d target s token) :
    (∀ c ∈ token.toList, isBlank c = false) ∧ GoesBare d target token.toList token := by
  cases bare with
  | @integer _ i form low high =>
    rw [String.toList_ofList]
    exact ⟨visible_ofInt i, .integer (integerForm_ofInt i) low high⟩
  | number numeric form finite =>
    rw [String.toList_ofList]
    exact ⟨fun c member => isBlank_of_numeral (form.chars c member), .number numeric form finite⟩
  | @boolean _ b spells =>
    have visible : (d.boolean b).toList.all (!isBlank ·) := by cases d <;> cases b <;> decide
    have same : Spells (d.boolean b).toList b := by
      rw [spells_iff]
      cases d <;> cases b <;> decide
    exact ⟨by simpa using visible, .boolean same⟩

theorem textLiteral_padded {d : Dialect} {target : Option ColumnType} {s : List Char}
    {token before behind : String} (bare : GoesBare d target s token)
    (blankBefore : allBlank before) (blankBehind : allBlank behind) :
    d.textLiteral target (before ++ token ++ behind) = token := by
  obtain ⟨visible, again⟩ := bare.again
  refine textLiteral_of_goesBare ?_
  rw [String.toList_append, String.toList_append,
    trim_padded (List.all_eq_true.mp blankBefore) (List.all_eq_true.mp blankBehind),
    trim_of_visible visible]
  exact again

/-! ### Numbers that go bare -/

theorem goesBare_integer (d : Dialect) (i : Int64) {type : ColumnType}
    (numeric : type = .integer ∨ type = .float ∨ type = .decimal) :
    GoesBare d (some type) (ofInt i.toInt) (Dialect.integer i) := by
  have low := i.le_toInt
  have high := i.toInt_lt
  obtain rfl | fractional := numeric
  · exact .integer (integerForm_ofInt i.toInt) low high
  · exact .number fractional (decimalForm_ofInt i.toInt) (Binary64.ofInt_isFinite (by omega))

theorem goesBare_markedText (d : Dialect) {x : Binary64} (finite : x.isFinite) {type : ColumnType}
    (numeric : type = .float ∨ type = .decimal) :
    GoesBare d (some type) x.markedText.toList x.markedText := by
  have bare := goesBare_of_read? d numeric (Binary64.read?_markedText finite) finite
  rwa [String.ofList_toList] at bare

theorem inQuotes_string (s : String) : inQuotes (Dialect.string s).toList = true := by
  rw [Dialect.string, quoted, String.toList_ofList, enclose]
  simp [inQuotes]

/-- For a column of numbers the literal of an integer is written alike whether the integer is given
as a number or as text, with blanks around it or without; so is the literal of a finite double for a
column of doubles or decimal numbers. A text that goes bare, in whatever column, becomes a token
that stays as it is when it is given as text again. -/
theorem literal_of_spelled_number (d : Dialect) :
    (∀ (i : Int64) (before behind : String) (type : ColumnType), allBlank before → allBlank behind →
      type = .integer ∨ type = .float ∨ type = .decimal →
      d.literal (some type) (.text (before ++ Dialect.integer i ++ behind)) =
        d.literal (some type) (.integer i)) ∧
    (∀ (x : Binary64) (before behind : String) (type : ColumnType), x.isFinite →
      allBlank before → allBlank behind → type = .float ∨ type = .decimal →
      d.literal (some type) (.text (before ++ d.float x ++ behind)) =
        d.literal (some type) (.float x)) ∧
    ∀ (target : Option ColumnType) (s : String),
      let token := d.literal target (.text s)
      inQuotes token.toList = false → d.literal target (.text token) = token := by
  refine ⟨fun i before behind type blankBefore blankBehind numeric => ?_,
    fun x before behind type finite blankBefore blankBehind numeric => ?_,
    fun target s unquoted => ?_⟩
  · have bare := goesBare_integer d i numeric
    have same : d.literal (some type) (.integer i) = Dialect.integer i := by
      obtain rfl | rfl | rfl := numeric <;> rfl
    rw [same]
    exact textLiteral_padded bare blankBefore blankBehind
  · have bare := goesBare_markedText d finite numeric
    have same : d.literal (some type) (.float x) = x.markedText := by
      obtain rfl | rfl := numeric <;> exact float_of_isFinite d finite
    rw [same, float_of_isFinite d finite]
    exact textLiteral_padded bare blankBefore blankBehind
  · rcases textLiteral_cases d target s with bare | quoted
    · have none : allBlank "" := rfl
      have again := textLiteral_padded bare none none
      rwa [String.empty_append, String.append_empty] at again
    · have marks := inQuotes_string s
      rw [← quoted] at marks
      exact Bool.noConfusion (marks.symm.trans unquoted)

/-- The least integer, the double nearest to zero, and an integer with a sign and leading zeros. -/
theorem literal_of_spelled_number_extremes :
    let least : Binary64 := ⟨true, 1, by decide⟩
    let token := Dialect.sqlite.literal (some .integer) (.text " +007\n")
    (allBlank "\u2003" ∧ allBlank "\t\n" ∧ least.isFinite ∧ inQuotes token.toList = false) ∧
    Dialect.postgres.literal (some .decimal)
        (.text ("\u2003" ++ Dialect.integer Int64.minValue ++ "\t\n")) =
      Dialect.postgres.literal (some .decimal) (.integer Int64.minValue) ∧
    Dialect.sqlite.literal (some .float) (.text ("\u2003" ++ Dialect.sqlite.float least ++ "\t\n")) =
      Dialect.sqlite.literal (some .float) (.float least) ∧
    Dialect.sqlite.literal (some .integer) (.text token) = token := by
  intro least token
  have before : allBlank "\u2003" := by decide
  have behind : allBlank "\t\n" := by decide
  have finite : least.isFinite := by decide
  have unquoted : inQuotes token.toList = false := by decide
  exact ⟨⟨before, behind, finite, unquoted⟩,
    (literal_of_spelled_number .postgres).1 Int64.minValue _ _ .decimal before behind
      (Or.inr (Or.inr rfl)),
    (literal_of_spelled_number .sqlite).2.1 least _ _ .float finite before behind (Or.inl rfl),
    (literal_of_spelled_number .sqlite).2.2 (some .integer) " +007\n" unquoted⟩

end SqlFragment
