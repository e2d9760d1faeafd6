import SqlFragment.Dialect.Identifier
import SqlFragment.Proofs.Binary64.Printed
import SqlFragment.Proofs.Dialect.Bare
import SqlFragment.Proofs.Lexical.Scanner

/-!
# Literals and identifiers are tokens

Whatever a value holds and whatever a name is, its text is one token. Quoted text is one by the
doubling of its marks; text that goes bare is a number, a word or a name of characters without a
meaning of their own, where each hyphen is a sign (`token_literal`, `token_qualified`).
-/

namespace SqlFragment

/-! ### Words -/

/-- What stands for itself outside of quoted parts and in names of functions. -/
def isWordChar (c : Char) : Bool := c.isAlphanum || c == '_'

theorem isInert_of_isWordChar {c : Char} (h : isWordChar c) : isInert c := by
  cases inert : isInert c with
  | true => rfl
  | false =>
    simp only [isInert, special, List.contains_cons, List.contains_nil, Bool.not_eq_false',
      Bool.or_eq_true, beq_iff_eq, Bool.false_eq_true, or_false] at inert
    obtain rfl | rfl | rfl | rfl | rfl | rfl | rfl | rfl | rfl := inert <;>
      exact absurd h (by decide)

theorem isInert_of_isDigit {c : Char} (h : c.isDigit) : isInert c := by
  apply isInert_of_isWordChar
  show (c.isAlpha || c.isDigit || c == '_') = true
  rw [h, Bool.or_true, Bool.true_or]

theorem isWordChar_of_isWordPart {c : Char} (h : isWordPart c) : isWordChar c := by
  rw [isWordPart, Bool.or_eq_true, Bool.or_eq_true] at h
  show (c.isUpper || c.isLower || c.isDigit || c == '_') = true
  obtain (lower | digit) | underscore := h
  · simp [lower]
  · simp [digit]
  · simp [underscore]

theorem isInert_of_isWordPart {c : Char} (h : isWordPart c) : isInert c :=
  isInert_of_isWordChar (isWordChar_of_isWordPart h)

theorem isWordPart_of_isWordStart {c : Char} (h : isWordStart c) : isWordPart c := by
  rw [isWordStart, Bool.or_eq_true] at h
  rw [isWordPart, Bool.or_eq_true, Bool.or_eq_true]
  exact h.imp Or.inl id

theorem all_isInert {p : Char → Bool} (inert : ∀ c, p c → isInert c) {text : List Char}
    (h : text.all p) : text.all isInert := by
  rw [List.all_eq_true] at h ⊢
  exact fun c member => inert c (h c member)

/-! ### Identifiers -/

theorem exists_of_isBare {d : Dialect} {name : String} (bare : d.isBare name) :
    ∃ c rest, name.toList = c :: rest ∧ isWordStart c ∧ (∀ p ∈ c :: rest, isWordPart p) ∧
      name ∉ d.keywords := by
  rw [Dialect.isBare, Bool.and_eq_true] at bare
  obtain ⟨plain, free⟩ := bare
  cases word : name.toList with
  | nil =>
    rw [word] at plain
    cases plain
  | cons c rest =>
    rw [word, isPlainWord, Bool.and_eq_true, List.all_eq_true] at plain
    refine ⟨c, rest, rfl, plain.1, ?_, by simpa using free⟩
    exact List.forall_mem_cons.mpr ⟨isWordPart_of_isWordStart plain.1, plain.2⟩

theorem token_identifier (d : Dialect) (name : String) : Token (d.identifier name) := by
  unfold Dialect.identifier
  split
  · next bare =>
    obtain ⟨c, rest, chars, -, parts, -⟩ := exists_of_isBare bare
    apply token_inert
    rw [chars, List.all_eq_true]
    exact fun p member => isInert_of_isWordPart (parts p member)
  · exact token_quoted (Or.inr rfl) name

theorem token_qualified (d : Dialect) (table column : String) :
    Token (d.qualified table column) :=
  token_append_glue (token_identifier d table) (glue_inert (c := '.') rfl) (token_identifier d column)

/-! ### Numbers -/

open Numeral

section Numbers

variable {depth : Nat}

/-- Behind a sign there is no matter what went before. -/
theorem moves_signed {sign body : List Char} {negative : Bool} (form : SignForm sign negative)
    (rest : Moves (Outside depth) (Calm depth) body) :
    Moves (Calm depth) (Calm depth) (sign ++ body) := by
  rintro _ ⟨last, hyphen, slash, rfl⟩
  cases form with
  | none => exact rest _ ⟨last, rfl⟩
  | plus =>
    obtain ⟨after, reached, calm⟩ := rest ⟨.outside '+', depth⟩ ⟨'+', rfl⟩
    exact ⟨after, by simp [Scan.run, Scan.enter, reached], calm⟩
  | minus =>
    -- No hyphen stands before the sign, and the body may stand behind any character.
    obtain ⟨after, reached, calm⟩ := rest ⟨.outside '-', depth⟩ ⟨'-', rfl⟩
    exact ⟨after, by simp [Scan.run, Scan.enter, hyphen, reached], calm⟩

theorem moves_run {text : List Char} (some : text ≠ []) (inert : ∀ c ∈ text, isInert c) :
    Moves (Outside depth) (Calm depth) text := by
  obtain ⟨c, rest, rfl⟩ := List.exists_cons_of_ne_nil some
  exact moves_inert_cons (List.all_eq_true.mpr inert) depth

theorem moves_integer {text : List Char} {i : Int} (form : IntegerForm text i) :
    Moves (Calm depth) (Calm depth) text := by
  obtain ⟨signForm, number⟩ := form
  exact moves_signed signForm
    (moves_run number.nonempty fun c member => isInert_of_isDigit (number.digits c member))

theorem moves_mantissa {text whole fraction : List Char} (form : MantissaForm text whole fraction) :
    Moves (Outside depth) (Calm depth) text := by
  refine moves_run ?_ fun c member => ?_
  · cases form with
    | whole nonempty => exact nonempty
    | pointed => simp
    | leadingPoint => simp
  · obtain digit | rfl := form.chars c member
    · exact isInert_of_isDigit digit
    · rfl

theorem moves_exponent {text : List Char} {exponent : Int} (form : ExponentForm text exponent) :
    Moves (Calm depth) (Calm depth) text := by
  cases form with
  | none => exact moves_inert rfl depth
  | @marked mark text _ letter integer =>
    have inert : [mark].all isInert := by obtain rfl | rfl := letter <;> rfl
    exact (moves_inert inert depth).append (moves_integer integer)

theorem token_decimal {text : String} {x : Decimal} (form : DecimalForm text.toList x) :
    Token text := by
  intro depth
  generalize text.toList = chars at form
  obtain ⟨signForm, mantissaForm, exponentForm⟩ := form
  refine Moves.of_imp (moves_signed signForm ?_) fun _ => Or.inl
  exact (moves_mantissa mantissaForm).append (moves_exponent exponentForm)

end Numbers

/-! ### Literals -/

theorem token_string (s : String) : Token (Dialect.string s) := token_quoted (Or.inl rfl) s

theorem token_boolean (d : Dialect) (b : Bool) : Token (d.boolean b) := by
  cases d <;> cases b <;> exact token_inert rfl

theorem token_ofInt (i : Int) : Token (String.ofList (ofInt i)) := by
  intro depth
  rw [String.toList_ofList]
  exact (moves_integer (integerForm_ofInt i)).of_imp fun _ => Or.inl

theorem token_integer (i : Int64) : Token (Dialect.integer i) := token_ofInt i.toInt

theorem token_float (d : Dialect) (x : Binary64) : Token (d.float x) := by
  unfold Dialect.float
  split
  · cases d with
    | postgres => exact token_string "NaN"
    | sqlite => exact token_inert rfl
  · split
    · cases d with
      | postgres =>
        cases x.negative with
        | false => exact token_string "Infinity"
        | true => exact token_string "-Infinity"
      | sqlite =>
        cases x.negative with
        | false => exact token_inert rfl
        | true =>
          intro depth
          have body : Moves (Outside depth) (Calm depth) "9e999".toList := moves_inert_cons rfl depth
          exact (moves_signed .minus body).of_imp fun _ => Or.inl
    · obtain ⟨_, _, form, -⟩ := x.markedText_form
      exact token_decimal form

/-- Text goes bare only as a number or as a boolean. -/
theorem token_textLiteral (d : Dialect) (target : Option ColumnType) (s : String) :
    Token (d.textLiteral target s) := by
  rcases textLiteral_cases d target s with bare | quoted
  · generalize Text.trim s.toList = text at bare
    generalize d.textLiteral target s = token at bare ⊢
    cases bare with
    | integer => exact token_ofInt _
    | number numeric form => exact token_decimal (by rwa [String.toList_ofList])
    | @boolean _ b => exact token_boolean d b
  · rw [quoted]
    exact token_string s

theorem token_literal (d : Dialect) (target : Option ColumnType) (v : Value) :
    Token (d.literal target v) := by
  unfold Dialect.literal
  split
  · exact token_inert rfl
  · split
    · split <;> exact token_inert rfl
    · exact token_string _
    · exact token_boolean d _
  · split
    · exact token_boolean d _
    · exact token_string _
    · exact token_integer _
  · split
    · exact token_string _
    · exact token_float d _
  · exact token_textLiteral d target _
  · exact token_string _
  · split <;> exact token_string _

end SqlFragment
