import SqlFragment.Dialect.Literal
import SqlFragment.Proofs.Binary64.Rounding
import SqlFragment.Proofs.Numeral.Form

namespace SqlFragment

open Text Numeral

def spellings : Bool → List String
  | true => ["t", "true", "1", "y", "yes", "on"]
  | false => ["f", "false", "0", "n", "no", "off"]

def Spells (s : List Char) (b : Bool) : Prop :=
  ∃ word ∈ spellings b, s.map Char.toLower = word.toList

/-- The token that a text without the blanks around it goes bare as, in a column of the type. An
integer is written anew, a number with a point or an exponent keeps every digit. -/
inductive GoesBare (d : Dialect) : Option ColumnType → List Char → String → Prop where
  | integer {s : List Char} {i : Int} (form : IntegerForm s i) (low : -2 ^ 63 ≤ i)
      (high : i < 2 ^ 63) : GoesBare d (some .integer) s (String.ofList (ofInt i))
  | number {type : ColumnType} {s : List Char} {x : Decimal}
      (numeric : type = .float ∨ type = .decimal) (form : DecimalForm s x)
      (finite : (Binary64.ofDecimal x).isFinite) : GoesBare d (some type) s (String.ofList s)
  | boolean {s : List Char} {b : Bool} (spells : Spells s b) :
      GoesBare d (some .boolean) s (d.boolean b)

theorem spells_iff {s : List Char} {b : Bool} :
    Spells s b ↔ String.ofList (s.map Char.toLower) ∈ spellings b := by
  constructor
  · rintro ⟨word, member, same⟩
    rwa [same, String.ofList_toList]
  · intro member
    exact ⟨_, member, String.toList_ofList.symm⟩

theorem booleanOfText?_eq_some_iff {s : List Char} {b : Bool} :
    booleanOfText? s = some b ↔ Spells (trim s) b := by
  have apart : ∀ word ∈ spellings true, word ∉ spellings false := by decide
  rw [spells_iff, booleanOfText?]
  generalize String.ofList ((trim s).map Char.toLower) = word
  show (if (spellings true).contains word then some true
    else if (spellings false).contains word then some false else none) = some b ↔ _
  simp only [List.contains_iff_mem]
  split
  · next yes => cases b <;> simp [yes, apart word yes]
  · next no =>
    split
    · next yes => cases b <;> simp [no, yes]
    · next neither => cases b <;> simp [no, neither]

theorem GoesBare.unquoted {d : Dialect} {target : Option ColumnType} {s : List Char} {token : String}
    (bare : GoesBare d target s token) : '\'' ∉ token.toList := by
  intro quote
  cases bare with
  | integer =>
    rw [String.toList_ofList] at quote
    exact absurd ((integerForm_ofInt _).chars _ quote) (by decide)
  | number numeric form =>
    rw [String.toList_ofList] at quote
    exact absurd (form.chars _ quote) (by decide)
  | @boolean _ b => cases d <;> cases b <;> exact absurd quote (by decide)

theorem textLiteral_of_goesBare {d : Dialect} {target : Option ColumnType} {s token : String}
    (bare : GoesBare d target (trim s.toList) token) : d.textLiteral target s = token := by
  generalize same : trim s.toList = trimmed at bare
  cases bare with
  | @integer _ i form low high =>
    have value : (Int64.ofInt i).toInt = i := Int64.toInt_ofInt_of_le (by omega) (by omega)
    have read : readInt64? trimmed = some (Int64.ofInt i) :=
      readInt64?_eq_some_iff.mpr (value.symm ▸ form)
    simp only [Dialect.textLiteral, same, read, Option.map_some, Option.getD_some, Dialect.integer,
      value]
  | number numeric form finite =>
    have read : Binary64.read? trimmed = some _ :=
      Option.map_eq_some_iff.mpr ⟨_, Decimal.read?_eq_some_iff.mpr form, rfl⟩
    obtain rfl | rfl := numeric <;>
      simp only [Dialect.textLiteral, same, read, if_pos finite]
  | boolean spells =>
    have read := booleanOfText?_eq_some_iff.mpr (same ▸ spells)
    rw [Dialect.textLiteral, read]
    rfl

theorem goesBare_of_read? (d : Dialect) {type : ColumnType} (numeric : type = .float ∨ type = .decimal)
    {s : List Char} {x : Binary64} (read : Binary64.read? s = some x) (finite : x.isFinite) :
    GoesBare d (some type) s (String.ofList s) := by
  obtain ⟨decimal, decimalRead, rfl⟩ := Option.map_eq_some_iff.mp read
  exact .number numeric (Decimal.read?_eq_some_iff.mp decimalRead) finite

theorem textLiteral_cases_number (d : Dialect) (s : String) {type : ColumnType}
    (numeric : type = .float ∨ type = .decimal) :
    GoesBare d (some type) (trim s.toList) (d.textLiteral (some type) s) ∨
      d.textLiteral (some type) s = Dialect.string s := by
  cases read : Binary64.read? (trim s.toList) with
  | none =>
    right
    obtain rfl | rfl := numeric <;> simp only [Dialect.textLiteral, read]
  | some x =>
    by_cases finite : x.isFinite
    · left
      have token : d.textLiteral (some type) s = String.ofList (trim s.toList) := by
        obtain rfl | rfl := numeric <;> simp only [Dialect.textLiteral, read, if_pos finite]
      rw [token]
      exact goesBare_of_read? d numeric read finite
    · right
      obtain rfl | rfl := numeric <;> simp only [Dialect.textLiteral, read, if_neg finite]

theorem textLiteral_cases (d : Dialect) (target : Option ColumnType) (s : String) :
    GoesBare d target (trim s.toList) (d.textLiteral target s) ∨
      d.textLiteral target s = Dialect.string s := by
  unfold Dialect.textLiteral
  dsimp only
  split
  · cases read : readInt64? (trim s.toList) with
    | none => exact Or.inr rfl
    | some i => exact Or.inl (.integer (readInt64?_eq_some_iff.mp read) i.le_toInt i.toInt_lt)
  · exact textLiteral_cases_number d s (Or.inl rfl)
  · exact textLiteral_cases_number d s (Or.inr rfl)
  · cases read : booleanOfText? s.toList with
    | none => exact Or.inr rfl
    | some b => exact Or.inl (.boolean (booleanOfText?_eq_some_iff.mp read))
  · exact Or.inr rfl

/-- A text goes bare exactly where its form is that of a value of the column, as the token that this
value and the text without blanks around it settle; all other texts are quoted, blanks included. A
decimal number is finite as a double exactly below `overflow`. -/
theorem text_bare_or_verbatim (d : Dialect) (target : Option ColumnType) (s : String) :
    (∀ token, d.literal target (.text s) = token ↔
      GoesBare d target (trim s.toList) token ∨
        (∀ bare, ¬ GoesBare d target (trim s.toList) bare) ∧ token = Dialect.string s) ∧
    (∀ token, GoesBare d target (trim s.toList) token → '\'' ∉ token.toList) ∧
    ∀ x : Decimal, (Binary64.ofDecimal x).isFinite ↔
      x.coefficient * 10 ^ x.exponent.toNat <
        Binary64.overflow * 10 ^ (-x.exponent).toNat := by
  refine ⟨fun token => ?_, fun token bare => bare.unquoted, Binary64.ofDecimal_isFinite_iff⟩
  show d.textLiteral target s = token ↔ _
  constructor
  · rintro rfl
    rcases textLiteral_cases d target s with bare | quoted
    · exact Or.inl bare
    · by_cases some : ∃ bare, GoesBare d target (trim s.toList) bare
      · obtain ⟨token, bare⟩ := some
        rw [textLiteral_of_goesBare bare]
        exact Or.inl bare
      · exact Or.inr ⟨fun bare h => some ⟨bare, h⟩, quoted⟩
  · rintro (bare | ⟨none, rfl⟩)
    · exact textLiteral_of_goesBare bare
    · exact (textLiteral_cases d target s).resolve_left (none _)

end SqlFragment
