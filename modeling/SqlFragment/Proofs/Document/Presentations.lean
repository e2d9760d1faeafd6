import SqlFragment.Proofs.Document.Json

/-!
# Presentations

Which documents are read, and as what: exactly the presentations of an expression are read as it,
with dates and timestamps in loose layout. ISO layout is read, but is not all that is read
(`not_decode_eq_ok_iff_iso`). What is read from JSON is written in ISO layout, and read again from
that; an expression is read back exactly if it is well built and has numbers for its floats
(`decode_encode_iff`).
-/

namespace SqlFragment.Expr

open Document Calendar

theorem decode_encode_iff {e : Expr} : decode e.encode = .ok e ↔ e.WellBuilt ∧ e.FloatsFinite := by
  constructor
  · intro read
    have represents := decode_eq_ok_iff.mp read
    exact ⟨wellBuilt_of_represents represents,
      floatsFinite_of_represents represents e.isJson_encode⟩
  · rintro ⟨built, finite⟩
    exact decode_eq_ok_iff.mpr (represents_encode built finite).loose

/-- A document is read as an expression exactly if it presents it, so that all presentations of the
expression are read alike; and what is read from JSON can be written and read again. -/
theorem decode_presentations (d other : Document) (e : Expr) :
    (decode d = .ok e ↔ Represents .loose d e) ∧
    (Represents .iso d e → decode d = .ok e) ∧
    (Represents .loose d e → Represents .loose other e → decode d = decode other) ∧
    (d.IsJson → decode d = .ok e → Represents .iso e.encode e ∧ decode e.encode = .ok e) := by
  refine ⟨decode_eq_ok_iff, ?_, ?_, ?_⟩
  · intro strict
    exact decode_eq_ok_iff.mpr strict.loose
  · intro first second
    rw [decode_eq_ok_iff.mpr first, decode_eq_ok_iff.mpr second]
  · intro json read
    have represents := decode_eq_ok_iff.mp read
    have finite := floatsFinite_of_represents represents json
    have written := represents_encode (wellBuilt_of_represents represents) finite
    exact ⟨written, decode_eq_ok_iff.mpr written.loose⟩

/-! ### Blanks in dates -/

def leapDay : Expr := literal (.date ⟨2024, 2, 29, by decide, by decide, by decide⟩) none

/-- The day with blanks before its separators and behind them. -/
def spacedDay : Document :=
  object [("Literal", object [("value", object [("Date", string "2024 - 02 - 29")])])]

def plainDay : Document :=
  object [("Literal", array [object [("Date", string "2024-02-29")], null])]

theorem decode_spacedDay : decode spacedDay = .ok leapDay := rfl

theorem represents_plainDay : Represents .iso plainDay leapDay :=
  .literalArray (.date (dateForm_chars _)) .none

theorem decode_presentations_leapDay :
    decode plainDay = .ok leapDay ∧ decode spacedDay = decode plainDay ∧
    decode leapDay.encode = .ok leapDay := by
  have json : spacedDay.IsJson := .keyed _ (.keyed _ (.keyed _ (.string _)))
  obtain ⟨exactly, -, alike, again⟩ := decode_presentations spacedDay plainDay leapDay
  have plain := (decode_presentations plainDay spacedDay leapDay).2.1 represents_plainDay
  have spaced := exactly.mp decode_spacedDay
  exact ⟨plain, alike spaced represents_plainDay.loose, (again json decode_spacedDay).2⟩

theorem exists_value_of_represents {l : Layout} {d : Document} {v : Value}
    {target : Option Attribute} (h : Represents l d (literal v target)) :
    ∃ c, ValueForm l c v ∧
      ((∃ fields, d = object [("Literal", object fields)] ∧ fields.lookup "value" = some c) ∨
        ∃ b, d = object [("Literal", array [c, b])]) := by
  cases h with
  | literalObject found value => exact ⟨_, value, Or.inl ⟨_, rfl, found⟩⟩
  | literalArray value => exact ⟨_, value, Or.inr ⟨_, rfl⟩⟩

theorem exists_text_of_valueForm {l : Layout} {d : Document} {day : Date}
    (form : ValueForm l d (.date day)) :
    ∃ s, d = object [("Date", string s)] ∧ DateForm l s.toList day := by
  cases form with
  | date form => exact ⟨_, rfl, form⟩

theorem not_decode_eq_ok_iff_iso : ¬ ∀ d e, decode d = .ok e ↔ Represents .iso d e := by
  intro all
  obtain ⟨c, value, place⟩ := exists_value_of_represents ((all _ _).mp decode_spacedDay)
  obtain ⟨s, rfl, form⟩ := exists_text_of_valueForm value
  have text : s = "2024 - 02 - 29" := by
    rcases place with ⟨fields, same, found⟩ | ⟨b, same⟩
    · cases same
      cases found
      rfl
    · cases same
  have blank := form.not_blank ' ' (by rw [text]; decide)
  revert blank
  decide

end SqlFragment.Expr
