import SqlFragment.Document.Expr
import SqlFragment.Proofs.Document.Form

/-!
# What the readers accept

For each reader of scalars, fields, variants, attributes and values, the documents that it accepts
and what it makes of them. Main statement: a value is read from exactly the documents that have its
form (`Value.decode_eq_ok_iff`).
-/

namespace SqlFragment

open Document Calendar

theorem bind_eq_ok_iff {ε α β : Type} {x : Except ε α} {f : α → Except ε β} {b : β} :
    (x >>= f) = .ok b ↔ ∃ a, x = .ok a ∧ f a = .ok b := by
  cases x with
  | error e =>
    constructor
    · intro h
      cases h
    · rintro ⟨a, h, -⟩
      cases h
  | ok a =>
    constructor
    · intro h
      exact ⟨a, rfl, h⟩
    · rintro ⟨_, ⟨⟩, h⟩
      exact h

theorem pure_eq_ok_iff {ε α : Type} {a b : α} : (pure a : Except ε α) = .ok b ↔ a = b := by
  show (Except.ok a : Except ε α) = .ok b ↔ a = b
  rw [Except.ok.injEq]

theorem map_eq_ok_iff {ε α β : Type} {x : Except ε α} {f : α → β} {b : β} :
    f <$> x = .ok b ↔ ∃ a, x = .ok a ∧ f a = b := by
  rw [map_eq_pure_bind, bind_eq_ok_iff]
  exact exists_congr fun a => and_congr_right fun _ => pure_eq_ok_iff

namespace Document

variable {α : Type} {read : Reader α} {d : Document}

/-! ### Scalars -/

theorem readBool_eq_ok_iff {b : Bool} : readBool d = .ok b ↔ BoolForm d b := by
  cases d <;> simp [readBool, BoolForm]

theorem readString_eq_ok_iff {s : String} : readString d = .ok s ↔ StringForm d s := by
  cases d <;> simp [readString, StringForm]

theorem readInt64_eq_ok_iff {i : Int64} : readInt64 d = .ok i ↔ d = integer i.toInt := by
  cases d with
  | integer n =>
    rw [integer.injEq, readInt64, Numeral.toInt64?]
    split
    · next range =>
      have back : (Int64.ofInt n).toInt = n :=
        Int64.toInt_ofInt_of_le range.1 range.2
      constructor
      · intro h
        cases h
        exact back.symm
      · rintro rfl
        exact congrArg Except.ok (Int64.ofInt_toInt i)
    · next range =>
      constructor
      · intro h
        cases h
      · rintro rfl
        have low := i.le_toInt
        have high := i.toInt_lt
        omega
  | _ => simp [readInt64]

theorem readFloat_eq_ok_iff {x : Binary64} : readFloat d = .ok x ↔ NumberForm d x := by
  constructor
  · intro h
    cases d with
    | integer i =>
      cases h
      exact .integer i
    | float y =>
      cases h
      exact .float x
    | _ => cases h
  · intro form
    cases form <;> rfl

theorem readForm_eq_ok_iff {read : List Char → Option α} {a : α} :
    readForm read d = .ok a ↔ ∃ s, d = string s ∧ read s.toList = some a := by
  cases d with
  | string s =>
    rw [readForm]
    cases same : read s.toList with
    | none => simp [same]
    | some b => simp [same]
  | _ => simp [readForm]

theorem readOptional_eq_ok_iff {form : Document → α → Prop}
    (exactly : ∀ d a, read d = .ok a ↔ form d a) (notNull : ∀ a, ¬ form null a)
    {value : Option α} : readOptional read d = .ok value ↔ OptionForm form d value := by
  constructor
  · intro h
    by_cases isNull : d = null
    · subst isNull
      cases h
      exact .none
    · have h : some <$> read d = .ok value := by
        cases d <;> first | exact h | exact absurd rfl isNull
      obtain ⟨a, taken, rfl⟩ := map_eq_ok_iff.mp h
      exact .some ((exactly d a).mp taken)
  · intro form
    cases form with
    | none => rfl
    | @some _ a here =>
      have taken : some <$> read d = .ok (some a) :=
        map_eq_ok_iff.mpr ⟨a, (exactly d a).mpr here, rfl⟩
      cases d with
      | null => exact absurd here (notNull a)
      | _ => exact taken

theorem mapM_eq_ok_iff {items : List Document} {as : List α} :
    items.mapM read = .ok as ↔ List.Forall₂ (fun d a => read d = .ok a) items as := by
  induction items generalizing as with
  | nil =>
    constructor
    · intro h
      cases h
      exact .nil
    · rintro ⟨⟩
      rfl
  | cons d rest ih =>
    rw [List.mapM_cons, bind_eq_ok_iff]
    constructor
    · rintro ⟨a, first, h⟩
      obtain ⟨others, taken, h⟩ := bind_eq_ok_iff.mp h
      cases h
      exact .cons first (ih.mp taken)
    · rintro (_ | ⟨first, others⟩)
      exact ⟨_, first, bind_eq_ok_iff.mpr ⟨_, ih.mpr others, rfl⟩⟩

theorem readAll_eq_ok_iff {as : List α} :
    readAll read d = .ok as ↔
      ∃ items, d = array items ∧ List.Forall₂ (fun d a => read d = .ok a) items as := by
  cases d with
  | array items => simp [readAll, mapM_eq_ok_iff]
  | _ => simp [readAll]

/-! ### Fields and items -/

variable {fields : List (String × Document)} {name : String} {items rest : List Document}

theorem field?_eq_ok_iff {value : Option α} :
    field? fields name read = .ok value ↔
      (fields.lookup name = none ∧ value = none) ∨
      ∃ d a, fields.lookup name = some d ∧ read d = .ok a ∧ value = some a := by
  unfold field?
  split
  · next absent =>
    simp [eq_comm, absent]
  · next d found =>
    rw [map_eq_ok_iff]
    simp [found, eq_comm]

theorem exists_of_required {value : Option α} {a : α}
    (taken : field? fields name read = .ok value) (there : required name value = .ok a) :
    ∃ d, fields.lookup name = some d ∧ read d = .ok a := by
  rcases field?_eq_ok_iff.mp taken with ⟨-, rfl⟩ | ⟨d, b, found, h, rfl⟩
  · cases there
  · cases there
    exact ⟨d, found, h⟩

theorem field?_of_found {a : α} (found : fields.lookup name = some d) (h : read d = .ok a) :
    field? fields name read = .ok (some a) :=
  field?_eq_ok_iff.mpr (Or.inr ⟨d, a, found, h, rfl⟩)

theorem field?_fieldOr {form : Document → α → Prop} (exactly : ∀ d a, read d = .ok a ↔ form d a)
    {fallback a : α} :
    FieldOr form fallback fields name a ↔
      ∃ value, field? fields name read = .ok value ∧ value.getD fallback = a := by
  constructor
  · intro field
    cases field with
    | missing absent => exact ⟨none, field?_eq_ok_iff.mpr (Or.inl ⟨absent, rfl⟩), rfl⟩
    | present found here => exact ⟨_, field?_of_found found ((exactly _ a).mpr here), rfl⟩
  · rintro ⟨value, taken, rfl⟩
    rcases field?_eq_ok_iff.mp taken with ⟨absent, rfl⟩ | ⟨d, b, found, h, rfl⟩
    · exact .missing absent
    · exact .present found ((exactly d b).mp h)

theorem nextItem_eq_ok_iff {a : α} :
    nextItem read items = .ok (a, rest) ↔ ∃ d, items = d :: rest ∧ read d = .ok a := by
  cases items with
  | nil => simp [nextItem]
  | cons d others =>
    rw [nextItem, bind_eq_ok_iff]
    constructor
    · rintro ⟨b, taken, h⟩
      cases h
      exact ⟨d, rfl, taken⟩
    · rintro ⟨_, ⟨⟩, taken⟩
      exact ⟨a, taken, rfl⟩

theorem nextItem_of_read {a : α} (h : read d = .ok a) (rest : List Document) :
    nextItem read (d :: rest) = .ok (a, rest) :=
  nextItem_eq_ok_iff.mpr ⟨d, rfl, h⟩

theorem nextItemOr_eq_ok_iff {fallback a : α} :
    nextItemOr fallback read items = .ok (a, rest) ↔
      (items = [] ∧ a = fallback ∧ rest = []) ∨ ∃ d, items = d :: rest ∧ read d = .ok a := by
  cases items with
  | nil => simp [nextItemOr, eq_comm]
  | cons d others =>
    rw [nextItemOr, bind_eq_ok_iff]
    constructor
    · rintro ⟨b, taken, h⟩
      cases h
      exact Or.inr ⟨d, rfl, taken⟩
    · rintro (⟨⟨⟩, -⟩ | ⟨_, ⟨⟩, taken⟩)
      exact ⟨a, taken, rfl⟩

theorem noMoreItems_eq_ok_iff {u : Unit} : noMoreItems items = .ok u ↔ items = [] := by
  cases items <;> simp [noMoreItems]

/-! ### Variants -/

theorem readTagged_eq_ok_iff {content : Option Document} :
    readTagged d = .ok (name, content) ↔
      (d = string name ∧ content = none) ∨ ∃ c, d = object [(name, c)] ∧ content = some c := by
  constructor
  · intro h
    unfold readTagged at h
    split at h
    · cases h
      exact Or.inl ⟨rfl, rfl⟩
    · cases h
      exact Or.inr ⟨_, rfl, rfl⟩
    · cases h
    · cases h
  · rintro (⟨rfl, rfl⟩ | ⟨c, rfl, rfl⟩) <;> rfl

theorem contentOf_eq_ok_iff {content : Option Document} :
    contentOf content = .ok d ↔ content = some d := by
  cases content <;> simp [contentOf]

theorem noContent_eq_ok_iff {content : Option Document} {u : Unit} :
    noContent content = .ok u ↔ content = none ∨ content = some null := by
  rcases content with _ | d
  · simp [noContent]
  · cases d <;> simp [noContent]

theorem variantOf_eq_ok_iff {all : List α} {nameOf : α → String} (complete : ∀ a, a ∈ all)
    (different : ∀ a b, nameOf a = nameOf b → a = b) {a : α} :
    variantOf all nameOf name = .ok a ↔ name = nameOf a := by
  constructor
  · intro h
    unfold variantOf at h
    cases found : all.find? (nameOf · == name) with
    | none => rw [found] at h; cases h
    | some b =>
      rw [found] at h
      cases h
      have same := List.find?_some found
      exact (beq_iff_eq.mp same).symm
  · rintro rfl
    have found : all.find? (nameOf · == nameOf a) = some a := by
      cases found : all.find? (nameOf · == nameOf a) with
      | none =>
        have no := List.find?_eq_none.mp found a (complete a)
        exact absurd (beq_iff_eq.mpr rfl) no
      | some b =>
        have same := List.find?_some found
        rw [different b a (beq_iff_eq.mp same)]
    rw [variantOf, found]
    rfl

theorem unitForm_iff :
    UnitForm name d ↔
      ∃ content, readTagged d = .ok (name, content) ∧ (content = none ∨ content = some null) := by
  constructor
  · intro form
    cases form with
    | bare => exact ⟨none, rfl, Or.inl rfl⟩
    | keyed => exact ⟨some null, rfl, Or.inr rfl⟩
  · rintro ⟨content, taken, empty⟩
    rcases readTagged_eq_ok_iff.mp taken with ⟨rfl, rfl⟩ | ⟨c, rfl, rfl⟩
    · exact .bare
    · rcases empty with h | h
      · cases h
      · cases h
        exact .keyed

theorem readChoice_eq_ok_iff {all : List α} {nameOf : α → String} (complete : ∀ a, a ∈ all)
    (different : ∀ a b, nameOf a = nameOf b → a = b) {a : α} :
    readChoice all nameOf d = .ok a ↔ UnitForm (nameOf a) d := by
  rw [unitForm_iff]
  unfold readChoice
  constructor
  · intro h
    obtain ⟨⟨name, content⟩, taken, h⟩ := bind_eq_ok_iff.mp h
    obtain ⟨b, chosen, h⟩ := bind_eq_ok_iff.mp h
    obtain ⟨_, empty, h⟩ := bind_eq_ok_iff.mp h
    obtain rfl := pure_eq_ok_iff.mp h
    rw [(variantOf_eq_ok_iff complete different).mp chosen] at taken
    exact ⟨content, taken, noContent_eq_ok_iff.mp empty⟩
  · rintro ⟨content, taken, empty⟩
    refine bind_eq_ok_iff.mpr ⟨_, taken, bind_eq_ok_iff.mpr ⟨a, ?_, bind_eq_ok_iff.mpr ⟨(), ?_, rfl⟩⟩⟩
    · exact (variantOf_eq_ok_iff complete different).mpr rfl
    · exact noContent_eq_ok_iff.mpr empty

theorem stringForm_null (s : String) : ¬ StringForm null s := by
  intro h
  cases h

theorem attributeForm_null (a : Attribute) : ¬ AttributeForm null a := by
  intro h
  cases h

end Document

/-! ### Attributes, operators and values -/

theorem Operator.decode_eq_ok_iff {d : Document} {op : Operator} :
    Operator.decode d = .ok op ↔ UnitForm op.name d := by
  refine readChoice_eq_ok_iff ?_ ?_
  · intro op
    cases op <;> decide
  · intro op other
    cases op <;> cases other <;> decide

theorem Attribute.decode_eq_ok_iff {d : Document} {a : Attribute} :
    Attribute.decode d = .ok a ↔ AttributeForm d a := by
  constructor
  · intro h
    cases d with
    | object fields =>
      obtain ⟨column, columnTaken, h⟩ := bind_eq_ok_iff.mp h
      obtain ⟨table, tableTaken, h⟩ := bind_eq_ok_iff.mp h
      obtain ⟨t, tableThere, h⟩ := bind_eq_ok_iff.mp h
      obtain ⟨c, columnThere, h⟩ := bind_eq_ok_iff.mp h
      obtain rfl := pure_eq_ok_iff.mp h
      obtain ⟨d₁, tableFound, tableRead⟩ := exists_of_required tableTaken tableThere
      obtain ⟨d₂, columnFound, columnRead⟩ := exists_of_required columnTaken columnThere
      rw [readString_eq_ok_iff.mp tableRead] at tableFound
      rw [readString_eq_ok_iff.mp columnRead] at columnFound
      exact .object tableFound columnFound
    | array items =>
      obtain ⟨⟨t, rest⟩, first, h⟩ := bind_eq_ok_iff.mp h
      obtain ⟨⟨c, last⟩, second, h⟩ := bind_eq_ok_iff.mp h
      obtain ⟨_, done, h⟩ := bind_eq_ok_iff.mp h
      obtain rfl := pure_eq_ok_iff.mp h
      obtain ⟨d₁, rfl, tableRead⟩ := nextItem_eq_ok_iff.mp first
      obtain ⟨d₂, rfl, columnRead⟩ := nextItem_eq_ok_iff.mp second
      obtain rfl := noMoreItems_eq_ok_iff.mp done
      rw [readString_eq_ok_iff.mp tableRead, readString_eq_ok_iff.mp columnRead]
      exact .array t c
    | _ => cases h
  · intro form
    cases form with
    | object tableFound columnFound =>
      have tableTaken := field?_of_found tableFound (readString_eq_ok_iff.mpr rfl)
      have columnTaken := field?_of_found columnFound (readString_eq_ok_iff.mpr rfl)
      exact bind_eq_ok_iff.mpr ⟨_, columnTaken, bind_eq_ok_iff.mpr ⟨_, tableTaken, rfl⟩⟩
    | array table column => rfl

namespace Value

theorem variantOf_kind {name : String} {kind : Kind} :
    variantOf Kind.all Kind.name name = .ok kind ↔ name = kind.name := by
  refine variantOf_eq_ok_iff ?_ ?_
  · intro kind
    cases kind <;> decide
  · intro kind other
    cases kind <;> cases other <;> decide

theorem decode_keyed (kind : Kind) (c : Document) :
    Value.decode (object [(kind.name, c)]) = decodeContent kind (some c) := by
  cases kind <;> rfl

theorem decodeContent_sound {kind : Kind} {content : Option Document} {v : Value}
    (h : decodeContent kind content = .ok v) :
    (kind = .null ∧ v = null ∧ (content = none ∨ content = some .null)) ∨
    ∃ c, content = some c ∧ ValueForm .loose (object [(kind.name, c)]) v := by
  unfold decodeContent at h
  split at h
  · obtain ⟨_, empty, h⟩ := bind_eq_ok_iff.mp h
    obtain rfl := pure_eq_ok_iff.mp h
    exact Or.inl ⟨rfl, rfl, noContent_eq_ok_iff.mp empty⟩
  all_goals
    obtain ⟨c, there, h⟩ := bind_eq_ok_iff.mp h
    obtain ⟨x, taken, h⟩ := bind_eq_ok_iff.mp h
    obtain rfl := pure_eq_ok_iff.mp h
    refine Or.inr ⟨c, contentOf_eq_ok_iff.mp there, ?_⟩
  · rw [readBool_eq_ok_iff.mp taken]
    exact .boolean x
  · rw [readInt64_eq_ok_iff.mp taken]
    exact .integer x
  · exact .float (readFloat_eq_ok_iff.mp taken)
  · rw [readString_eq_ok_iff.mp taken]
    exact .text x
  · obtain ⟨s, rfl, form⟩ := readForm_eq_ok_iff.mp taken
    exact .date (Date.read?_eq_some_iff.mp form)
  · obtain ⟨s, rfl, form⟩ := readForm_eq_ok_iff.mp taken
    exact .timestamp (Timestamp.read?_eq_some_iff.mp form)

theorem decode_eq_ok_iff {d : Document} {v : Value} :
    Value.decode d = .ok v ↔ ValueForm .loose d v := by
  constructor
  · intro h
    obtain ⟨⟨name, content⟩, tagged, h⟩ := bind_eq_ok_iff.mp h
    obtain ⟨kind, chosen, h⟩ := bind_eq_ok_iff.mp h
    rw [variantOf_kind.mp chosen] at tagged
    rcases decodeContent_sound h with ⟨rfl, rfl, empty⟩ | ⟨c, rfl, form⟩
    · exact .null (unitForm_iff.mpr ⟨content, tagged, empty⟩)
    · rcases readTagged_eq_ok_iff.mp tagged with ⟨-, none⟩ | ⟨_, same, ⟨⟩⟩
      · cases none
      · rw [same]
        exact form
  · intro form
    cases form with
    | null unit => cases unit <;> rfl
    | boolean b => rfl
    | text s => rfl
    | integer i =>
      have taken := readInt64_eq_ok_iff.mpr (Eq.refl (Document.integer i.toInt))
      exact (decode_keyed .integer _).trans
        (bind_eq_ok_iff.mpr ⟨_, rfl, bind_eq_ok_iff.mpr ⟨i, taken, rfl⟩⟩)
    | @float c x number =>
      have taken := readFloat_eq_ok_iff.mpr number
      exact (decode_keyed .float _).trans
        (bind_eq_ok_iff.mpr ⟨_, rfl, bind_eq_ok_iff.mpr ⟨x, taken, rfl⟩⟩)
    | @date s day form =>
      have taken := readForm_eq_ok_iff.mpr ⟨s, rfl, Date.read?_eq_some_iff.mpr form⟩
      exact (decode_keyed .date _).trans
        (bind_eq_ok_iff.mpr ⟨_, rfl, bind_eq_ok_iff.mpr ⟨day, taken, rfl⟩⟩)
    | @timestamp s t form =>
      have taken := readForm_eq_ok_iff.mpr ⟨s, rfl, Timestamp.read?_eq_some_iff.mpr form⟩
      exact (decode_keyed .timestamp _).trans
        (bind_eq_ok_iff.mpr ⟨_, rfl, bind_eq_ok_iff.mpr ⟨t, taken, rfl⟩⟩)

end Value

end SqlFragment
