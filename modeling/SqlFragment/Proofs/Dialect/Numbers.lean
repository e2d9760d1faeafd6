import SqlFragment.Dialect.Literal
import SqlFragment.Proofs.Binary64.Printed

namespace SqlFragment

open Numeral

def inQuotes (s : List Char) : Bool := s.head? == some '\'' && s.tail.getLast? == some '\''

def withoutQuotes (s : List Char) : List Char := if inQuotes s then s.tail.dropLast else s

/-! ### Quotes -/

theorem toList_string {s : String} (none : '\'' ∉ s.toList) :
    (Dialect.string s).toList = '\'' :: (s.toList ++ ['\'']) := by
  rw [Dialect.string, Text.quoted, String.toList_ofList, Text.enclose, Text.double_of_not_mem none]

theorem quotes_string {s : String} (none : '\'' ∉ s.toList) :
    inQuotes (Dialect.string s).toList = true ∧
      withoutQuotes (Dialect.string s).toList = s.toList := by
  have quoted := toList_string none
  simp [withoutQuotes, inQuotes, quoted]

theorem quotes_unquoted {s : String} (none : '\'' ∉ s.toList) :
    inQuotes s.toList = false ∧ withoutQuotes s.toList = s.toList := by
  have bare : inQuotes s.toList = false := by
    cases chars : s.toList with
    | nil => rfl
    | cons c rest =>
      rw [chars, List.mem_cons, not_or] at none
      simp [inQuotes, Ne.symm none.1]
  simp [withoutQuotes, bare]

/-! ### Literals -/

theorem literal_integer (d : Dialect) (i : Int64) {target : Option ColumnType}
    (other : target ≠ some .boolean) :
    d.literal target (.integer i) =
      if target.any ColumnType.isTextual then Dialect.string (Dialect.integer i)
      else Dialect.integer i := by
  cases target with
  | none => rfl
  | some type =>
    cases type with
    | boolean => exact absurd rfl other
    | _ => rfl

theorem float_of_isFinite (d : Dialect) {x : Binary64} (finite : x.isFinite) :
    d.float x = x.markedText := by
  unfold Dialect.float
  rw [if_neg (Binary64.not_isNaN_of_isFinite finite),
    if_neg (Binary64.not_isInfinite_of_isFinite finite)]

theorem literal_float (d : Dialect) {x : Binary64} (finite : x.isFinite)
    (target : Option ColumnType) :
    d.literal target (.float x) =
      if target.any ColumnType.isTextual then Dialect.string x.plainText else x.markedText := by
  cases target with
  | none => exact float_of_isFinite d finite
  | some type =>
    cases type with
    | text => rfl
    | _ => exact float_of_isFinite d finite

theorem chars_integer (i : Int64) :
    ∀ c ∈ (Dialect.integer i).toList, c.isDigit ∨ c = '+' ∨ c = '-' := by
  rw [Dialect.integer, String.toList_ofList]
  exact (integerForm_ofInt _).chars

theorem unquoted_integer (i : Int64) : '\'' ∉ (Dialect.integer i).toList :=
  fun quote => absurd (chars_integer i _ quote) (by decide)

theorem unquoted_markedText (x : Binary64) : '\'' ∉ x.markedText.toList := by
  obtain ⟨_, _, form, -⟩ := x.markedText_form
  exact fun quote => absurd (form.chars _ quote) (by decide)

theorem unquoted_plainText {x : Binary64} (finite : x.isFinite) : '\'' ∉ x.plainText.toList := by
  obtain ⟨_, _, form, -⟩ := Binary64.plainText_form finite
  exact fun quote => absurd (form.chars _ quote) (by decide)

theorem literal_integer_reads (d : Dialect) (i : Int64) {target : Option ColumnType}
    (other : target ≠ some .boolean) :
    let token := (d.literal target (.integer i)).toList
    readInt64? (withoutQuotes token) = some i ∧
      inQuotes token = target.any ColumnType.isTextual := by
  have reads : readInt64? (Dialect.integer i).toList = some i := by
    rw [Dialect.integer, String.toList_ofList]
    exact readInt64?_ofInt64 i
  rw [literal_integer d i other]
  cases target.any ColumnType.isTextual with
  | true =>
    obtain ⟨quotes, body⟩ := quotes_string (unquoted_integer i)
    exact ⟨(congrArg readInt64? body).trans reads, quotes⟩
  | false =>
    obtain ⟨quotes, body⟩ := quotes_unquoted (unquoted_integer i)
    exact ⟨(congrArg readInt64? body).trans reads, quotes⟩

theorem literal_float_reads (d : Dialect) {x : Binary64} (finite : x.isFinite)
    (target : Option ColumnType) :
    let token := (d.literal target (.float x)).toList
    Binary64.read? (withoutQuotes token) = some x ∧
      inQuotes token = target.any ColumnType.isTextual := by
  rw [literal_float d finite]
  cases target.any ColumnType.isTextual with
  | true =>
    obtain ⟨quotes, body⟩ := quotes_string (unquoted_plainText finite)
    exact ⟨(congrArg Binary64.read? body).trans (Binary64.read?_plainText finite), quotes⟩
  | false =>
    obtain ⟨quotes, body⟩ := quotes_unquoted (unquoted_markedText x)
    exact ⟨(congrArg Binary64.read? body).trans (Binary64.read?_markedText finite), quotes⟩

theorem chars_literal_integer (d : Dialect) (i : Int64) {target : Option ColumnType}
    (other : target ≠ some .boolean) :
    ∀ c ∈ (d.literal target (.integer i)).toList, c.isDigit ∨ c ∈ ['+', '-', '\''] := by
  have digits : ∀ c ∈ (Dialect.integer i).toList, c.isDigit ∨ c ∈ ['+', '-', '\''] := by
    intro c member
    obtain digit | rfl | rfl := chars_integer i c member
    · exact Or.inl digit
    · decide
    · decide
  rw [literal_integer d i other]
  split
  · rw [toList_string (unquoted_integer i)]
    have quote : '\''.isDigit ∨ '\'' ∈ ['+', '-', '\''] := by decide
    exact List.forall_mem_cons.mpr
      ⟨quote, List.forall_mem_append.mpr ⟨digits, List.forall_mem_singleton.mpr quote⟩⟩
  · exact digits

theorem literal_integer_plain (d : Dialect) (i : Int64) {target : Option ColumnType}
    (other : target ≠ some .boolean) :
    let token := (d.literal target (.integer i)).toList
    '.' ∉ token ∧ 'e' ∉ token := by
  have chars := chars_literal_integer d i other
  exact ⟨fun point => absurd (chars _ point) (by decide),
    fun mark => absurd (chars _ mark) (by decide)⟩

theorem literal_float_marked (d : Dialect) {x : Binary64} (finite : x.isFinite)
    {target : Option ColumnType} (bare : target.any ColumnType.isTextual = false) :
    let token := (d.literal target (.float x)).toList
    '.' ∈ token ∨ 'e' ∈ token := by
  rw [literal_float d finite, bare]
  exact x.point_or_exponent

/-- Integers and finite doubles are read back from their literals, once quotes are taken off; quotes
are there for text columns only. The literal of a double for another column has a point or an
exponent, and that of an integer never has. -/
theorem literal_keeps_numbers (d : Dialect) :
    (∀ (i : Int64) (target : Option ColumnType), target ≠ some .boolean →
      let token := (d.literal target (.integer i)).toList
      readInt64? (withoutQuotes token) = some i ∧
      inQuotes token = target.any ColumnType.isTextual ∧
      '.' ∉ token ∧ 'e' ∉ token) ∧
    (∀ (x : Binary64) (target : Option ColumnType), x.isFinite →
      let token := (d.literal target (.float x)).toList
      Binary64.read? (withoutQuotes token) = some x ∧
      inQuotes token = target.any ColumnType.isTextual ∧
      (target.any ColumnType.isTextual = false → '.' ∈ token ∨ 'e' ∈ token)) ∧
    ∀ (i : Int64) (x : Binary64) (target other : Option ColumnType), target ≠ some .boolean →
      x.isFinite → other.any ColumnType.isTextual = false →
      d.literal target (.integer i) ≠ d.literal other (.float x) := by
  refine ⟨fun i target notBoolean => ?_, fun x target finite => ?_, ?_⟩
  · obtain ⟨reads, quotes⟩ := literal_integer_reads d i notBoolean
    exact ⟨reads, quotes, literal_integer_plain d i notBoolean⟩
  · obtain ⟨reads, quotes⟩ := literal_float_reads d finite target
    exact ⟨reads, quotes, literal_float_marked d finite⟩
  · intro i x target other notBoolean finite bare same
    obtain ⟨noPoint, noMark⟩ := literal_integer_plain d i notBoolean
    rw [same] at noPoint noMark
    exact (literal_float_marked d finite bare).elim noPoint noMark

/-- The least integer for a text column, and minus zero for an integer column. -/
theorem literal_keeps_numbers_extremes :
    let zero : Binary64 := ⟨true, 0, by decide⟩
    let token := (Dialect.sqlite.literal (some .text) (.integer Int64.minValue)).toList
    some ColumnType.text ≠ some .boolean ∧ zero.isFinite ∧
    readInt64? (withoutQuotes token) = some Int64.minValue ∧
    Binary64.read? (withoutQuotes (Dialect.sqlite.literal (some .integer) (.float zero)).toList) =
      some zero := by
  intro zero token
  obtain ⟨integers, doubles, -⟩ := literal_keeps_numbers .sqlite
  have notBoolean : some ColumnType.text ≠ some .boolean := by decide
  have finite : zero.isFinite := by decide
  exact ⟨notBoolean, finite, (integers Int64.minValue (some .text) notBoolean).1,
    (doubles zero (some .integer) finite).1⟩

end SqlFragment
