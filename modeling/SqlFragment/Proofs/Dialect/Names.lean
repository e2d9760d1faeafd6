import SqlFragment.Proofs.Lexical.Tokens

namespace SqlFragment

open Text

namespace Dialect

/-- Reads a name between double quotes, or else the longest run of letters, digits and underscores
from the front, if it starts a word and the dialect does not reserve it. -/
def readIdentifier? (d : Dialect) (s : List Char) : Option (List Char × List Char) :=
  if s.head? = some '"' then readEnclosed '"' s
  else
    let word := s.takeWhile isWordPart
    if word.head?.any isWordStart ∧ String.ofList word ∉ d.keywords then
      some (word, s.drop word.length)
    else none

def readQualified? (d : Dialect) (s : List Char) : Option ((List Char × List Char) × List Char) :=
  match d.readIdentifier? s with
  | some (table, '.' :: rest) =>
    (d.readIdentifier? rest).map fun (column, after) => ((table, column), after)
  | _ => none

end Dialect

/-- What may follow a name. -/
def EndsName (after : List Char) : Prop := ∀ c ∈ after.head?, c ≠ '"' ∧ ¬ isWordChar c

theorem readIdentifier?_identifier (d : Dialect) (name : String) {after : List Char}
    (ends : EndsName after) :
    d.readIdentifier? ((d.identifier name).toList ++ after) = some (name.toList, after) := by
  unfold Dialect.identifier
  split
  · next bare =>
    obtain ⟨c, rest, chars, start, parts, free⟩ := exists_of_isBare bare
    have word : (name.toList ++ after).takeWhile isWordPart = name.toList := by
      rw [chars, List.takeWhile_append_of_pos parts]
      cases after with
      | nil => exact List.append_nil _
      | cons d later =>
        have stop : ¬ isWordPart d := fun part => (ends d rfl).2 (isWordChar_of_isWordPart part)
        rw [List.takeWhile_cons_of_neg stop, List.append_nil]
    have unquoted : (name.toList ++ after).head? ≠ some '"' := by
      rw [chars]
      rintro ⟨⟩
      exact absurd start (by decide)
    have first : name.toList.head?.any isWordStart := by
      rw [chars]
      exact start
    rw [Dialect.readIdentifier?, if_neg unquoted]
    simp only [word, String.ofList_toList, List.drop_left, if_pos (And.intro first free)]
  · have alone : after.head? ≠ some '"' := fun quote => (ends '"' quote).1 rfl
    have quote : (enclose '"' name.toList ++ after).head? = some '"' := rfl
    rw [Text.quoted, String.toList_ofList, Dialect.readIdentifier?, if_pos quote]
    exact read_enclose alone name.toList

theorem readQualified?_qualified (d : Dialect) (table column : String) {after : List Char}
    (ends : EndsName after) :
    d.readQualified? ((d.qualified table column).toList ++ after) =
      some ((table.toList, column.toList), after) := by
  have point : EndsName ('.' :: ((d.identifier column).toList ++ after)) := by
    intro c first
    obtain rfl := Option.some.inj first
    decide
  have split : (d.qualified table column).toList ++ after =
      (d.identifier table).toList ++ '.' :: ((d.identifier column).toList ++ after) := by
    rw [Dialect.qualified, String.toList_append, String.toList_append, List.append_assoc,
      List.append_assoc]
    rfl
  rw [split, Dialect.readQualified?, readIdentifier?_identifier d table point]
  simp only [readIdentifier?_identifier d column ends, Option.map_some]

theorem readEnclosed_string (s : String) {after : List Char} (alone : after.head? ≠ some '\'') :
    readEnclosed '\'' ((Dialect.string s).toList ++ after) = some (s.toList, after) := by
  rw [Dialect.string, Text.quoted, String.toList_ofList]
  exact read_enclose alone s.toList

/-! ### What the tokens tell -/

theorem string_injective {s t : String} (same : Dialect.string s = Dialect.string t) : s = t := by
  have alone : [].head? ≠ some '\'' := nofun
  have first := readEnclosed_string s alone
  have second := readEnclosed_string t alone
  rw [same, second, Option.some.injEq, Prod.mk.injEq] at first
  exact String.toList_inj.mp first.1.symm

theorem qualified_injective {d : Dialect} {table column table' column' : String}
    (same : d.qualified table column = d.qualified table' column') :
    table = table' ∧ column = column' := by
  have ends : EndsName [] := nofun
  have first := readQualified?_qualified d table column ends
  have second := readQualified?_qualified d table' column' ends
  rw [same, second, Option.some.injEq, Prod.mk.injEq, Prod.mk.injEq] at first
  exact ⟨String.toList_inj.mp first.1.1.symm, String.toList_inj.mp first.1.2.symm⟩

/-- Quotes make a name longer, so only a bare name is written as it is. -/
theorem identifier_eq_self_iff {d : Dialect} {name : String} :
    d.identifier name = name ↔ d.isBare name := by
  unfold Dialect.identifier
  split
  · next bare => exact iff_of_true rfl bare
  · next quoted =>
    refine iff_of_false (fun same => ?_) quoted
    have length := congrArg (fun s : String => s.toList.length) same
    have grows := length_le_double '"' name.toList
    simp only [Text.quoted, String.toList_ofList, enclose, List.length_cons, List.length_append,
      List.length_nil] at length
    omega

theorem isBareEverywhere_iff (name : String) :
    isBareEverywhere name ↔
      Dialect.postgres.identifier name = name ∧ Dialect.sqlite.identifier name = name := by
  rw [identifier_eq_self_iff, identifier_eq_self_iff, Dialect.isBare, Dialect.isBare,
    isBareEverywhere]
  simp only [Bool.and_eq_true]
  constructor
  · rintro ⟨⟨plain, first⟩, second⟩
    exact ⟨⟨plain, first⟩, plain, second⟩
  · rintro ⟨⟨plain, first⟩, -, second⟩
    exact ⟨⟨plain, first⟩, second⟩

/-- A string, a name and a qualified name are read back from the front of a text, with whatever
follows them. So different strings have different literals, and different pairs of a table and a
column different qualified names. A name is written as it is in both dialects if it is bare
everywhere, and only then. -/
theorem tokens_read_back :
    (∀ (s : String) (after : List Char), after.head? ≠ some '\'' →
      readEnclosed '\'' ((Dialect.string s).toList ++ after) = some (s.toList, after)) ∧
    (∀ (d : Dialect) (name : String) (after : List Char), EndsName after →
      d.readIdentifier? ((d.identifier name).toList ++ after) = some (name.toList, after)) ∧
    (∀ (d : Dialect) (table column : String) (after : List Char), EndsName after →
      d.readQualified? ((d.qualified table column).toList ++ after) =
        some ((table.toList, column.toList), after)) ∧
    (∀ s t : String, Dialect.string s = Dialect.string t → s = t) ∧
    (∀ (d : Dialect) (table column table' column' : String),
      d.qualified table column = d.qualified table' column' →
        table = table' ∧ column = column') ∧
    ∀ name : String, isBareEverywhere name ↔
      Dialect.postgres.identifier name = name ∧ Dialect.sqlite.identifier name = name :=
  ⟨fun s _ alone => readEnclosed_string s alone,
    fun d name _ ends => readIdentifier?_identifier d name ends,
    fun d table column _ ends => readQualified?_qualified d table column ends,
    fun _ _ same => string_injective same,
    fun _ _ _ _ _ same => qualified_injective same,
    isBareEverywhere_iff⟩

/-- Points and quotes inside of a table's name do not move the boundary to the column. -/
theorem tokens_read_back_points :
    EndsName [' ', '='] ∧
      Dialect.sqlite.readQualified?
          ((Dialect.sqlite.qualified "a\".\"b" "key").toList ++ [' ', '=']) =
        some (("a\".\"b".toList, "key".toList), [' ', '=']) := by
  have ends : EndsName [' ', '='] := by
    intro c first
    obtain rfl := Option.some.inj first
    decide
  exact ⟨ends, tokens_read_back.2.2.1 .sqlite "a\".\"b" "key" [' ', '='] ends⟩

end SqlFragment
