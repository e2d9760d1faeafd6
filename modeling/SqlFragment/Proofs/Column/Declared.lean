import Mathlib.Data.List.Forall2
import SqlFragment.Dialect.Literal

namespace SqlFragment.ColumnType

open Text

/-- The other text differs in the case of ASCII letters only. -/
def CaseVariant (s t : List Char) : Prop :=
  List.Forall₂ (fun c d => d = c ∨ d = c.toUpper ∨ d = c.toLower) s t

instance (s t : List Char) : Decidable (CaseVariant s t) :=
  inferInstanceAs (Decidable (List.Forall₂ _ s t))

/-- What a declaration says before its first parenthesis. -/
def base (declared : List Char) : List Char := trim (declared.takeWhile (· != '('))

/-! ### Case -/

theorem ne_paren {p : Char → Bool} (noParen : p '(' = false) {c : Char} (h : p c) : c != '(' := by
  rw [bne_iff_ne]
  rintro rfl
  rw [noParen] at h
  cases h

/-- The characters of ASCII can be gone through one by one, and no other has a case. -/
theorem of_ascii {p : Char → Prop} (ascii : ∀ n < 128, p (Char.ofNat n))
    (caseless : ∀ c, c.toUpper = c → c.toLower = c → p c) (c : Char) : p c := by
  by_cases below : c.toNat < 128
  · have here := ascii c.toNat below
    rwa [Char.ofNat_toNat] at here
  · have beyond {last : Char} (within : last.toNat < 128) : ¬ c.val ≤ last.val := fun le =>
      below (Nat.lt_of_le_of_lt (UInt32.le_iff_toNat_le.mp le) within)
    exact caseless c (dif_neg fun h => beyond (by decide) h.2)
      (dif_neg fun h => beyond (by decide) h.2)

theorem toUpper_eq_or_isAlpha : ∀ c : Char, c.toUpper = c ∨ c.isAlpha ∧ c.toUpper.isAlpha :=
  of_ascii (by decide) fun _ upper _ => Or.inl upper

theorem toUpper_toUpper : ∀ c : Char, c.toUpper.toUpper = c.toUpper :=
  of_ascii (by decide) fun _ upper _ => congrArg Char.toUpper upper

theorem toUpper_toLower : ∀ c : Char, c.toLower.toUpper = c.toUpper :=
  of_ascii (by decide) fun _ _ lower => congrArg Char.toUpper lower

theorem toUpper_of_noLetter {p : Char → Bool} (noLetter : ∀ c, c.isAlpha → p c = false) (c : Char) :
    p c.toUpper = p c := by
  obtain same | ⟨letter, upper⟩ := toUpper_eq_or_isAlpha c
  · rw [same]
  · rw [noLetter c letter, noLetter c.toUpper upper]

theorem isBlank_of_isAlpha {c : Char} (letter : c.isAlpha) : isBlank c = false := by
  rcases Bool.or_eq_true_iff.mp letter with upper | lower
  · obtain ⟨first, last⟩ := of_decide_eq_true upper
    have low : 65 ≤ c.toNat := UInt32.le_iff_toNat_le.mp first
    have high : c.toNat ≤ 90 := UInt32.le_iff_toNat_le.mp last
    exact isBlank_of_graphic (by omega) (by omega)
  · obtain ⟨first, last⟩ := Bool.and_eq_true_iff.mp lower
    have low : 97 ≤ c.toNat := UInt32.le_iff_toNat_le.mp (of_decide_eq_true first)
    have high : c.toNat ≤ 122 := UInt32.le_iff_toNat_le.mp (of_decide_eq_true last)
    exact isBlank_of_graphic (by omega) (by omega)

theorem isBlank_toUpper (c : Char) : isBlank c.toUpper = isBlank c :=
  toUpper_of_noLetter (fun _ => isBlank_of_isAlpha) c

theorem paren_toUpper (c : Char) : (c.toUpper == '(') = (c == '(') := by
  refine toUpper_of_noLetter (p := (· == '(')) (fun d letter => ?_) c
  rw [beq_eq_false_iff_ne, ← bne_iff_ne]
  exact ne_paren rfl letter

theorem trimLeft_map_toUpper (s : List Char) :
    trimLeft (s.map Char.toUpper) = (trimLeft s).map Char.toUpper := by
  have same : isBlank ∘ Char.toUpper = isBlank := funext isBlank_toUpper
  rw [trimLeft, List.dropWhile_map, same, trimLeft]

theorem trim_map_toUpper (s : List Char) :
    trim (s.map Char.toUpper) = (trim s).map Char.toUpper := by
  rw [trim, trimRight, trimLeft_map_toUpper, ← List.map_reverse, trimLeft_map_toUpper,
    ← List.map_reverse, trim, trimRight]

theorem base_map_toUpper (s : List Char) :
    base (s.map Char.toUpper) = (base s).map Char.toUpper := by
  have same : (· != '(') ∘ Char.toUpper = (· != '(') :=
    funext fun c => congrArg not (paren_toUpper c)
  rw [base, List.takeWhile_map, same, trim_map_toUpper, base]

theorem CaseVariant.map_toUpper {s t : List Char} (variant : CaseVariant s t) :
    t.map Char.toUpper = s.map Char.toUpper := by
  induction variant with
  | nil => rfl
  | cons same _ ih =>
    rw [List.map_cons, List.map_cons, ih]
    obtain rfl | rfl | rfl := same
    · rfl
    · rw [toUpper_toUpper]
    · rw [toUpper_toLower]

/-! ### Up to the first parenthesis -/

theorem base_append_paren (s parameters : List Char) : base (s ++ '(' :: parameters) = base s := by
  refine congrArg trim ?_
  induction s with
  | nil => rfl
  | cons c rest ih => rw [List.cons_append, List.takeWhile_cons, List.takeWhile_cons, ih]

theorem takeWhile_append_blank {v : List Char} (blank : ∀ c ∈ v, isBlank c) (s : List Char) :
    ∃ w, (∀ c ∈ w, isBlank c) ∧
      (s ++ v).takeWhile (· != '(') = s.takeWhile (· != '(') ++ w := by
  induction s with
  | nil => exact ⟨_, fun c member => blank c (List.takeWhile_subset _ member), rfl⟩
  | cons c rest ih =>
    by_cases paren : c = '('
    · exact ⟨[], List.forall_mem_nil _, by simp [paren]⟩
    · obtain ⟨w, blankW, same⟩ := ih
      exact ⟨w, blankW, by simp [paren, same]⟩

theorem base_padded {u v : List Char} (before : ∀ c ∈ u, isBlank c) (behind : ∀ c ∈ v, isBlank c)
    (s : List Char) : base (u ++ s ++ v) = base s := by
  have noParen : ∀ c ∈ u, c != '(' := fun c member => ne_paren rfl (before c member)
  obtain ⟨w, blank, same⟩ := takeWhile_append_blank behind s
  rw [base, List.append_assoc, List.takeWhile_append_of_pos noParen, same, ← List.append_assoc,
    trim_padded before blank, base]

theorem base_trim (s : List Char) : base (trim s) = base s := by
  obtain ⟨u, v, before, behind, split⟩ := eq_append_trim s
  have padded := base_padded before behind (trim s)
  rw [← split] at padded
  exact padded.symm

theorem declaredName_eq (s : List Char) : declaredName s = (base s).map Char.toUpper := by
  show base ((trim s).map Char.toUpper) = _
  rw [base_map_toUpper, base_trim]

theorem declaredName_of_variant {s t : List Char} (variant : CaseVariant s t) :
    declaredName t = declaredName s := by
  rw [declaredName_eq, declaredName_eq, ← base_map_toUpper, ← base_map_toUpper, variant.map_toUpper]

theorem ofDeclared_eq_of_base {declared other : String}
    (same : base declared.toList = base other.toList) : ofDeclared declared = ofDeclared other := by
  rw [ofDeclared, ofDeclared, declaredName_eq, declaredName_eq, same]

/-- The type that a declaration stands for does not change with the case of letters, nor with blanks
before and behind it, nor with anything that starts with a parenthesis, even behind blanks. -/
theorem ofDeclared_eq_of_variant (declared variant before behind gap parameters : String)
    (sameLetters : CaseVariant declared.toList variant.toList) (blankBefore : allBlank before)
    (blankBehind : allBlank behind) (blankGap : allBlank gap) :
    ofDeclared (before ++ variant ++ behind) = ofDeclared declared ∧
      ofDeclared (variant ++ gap ++ "(" ++ parameters) = ofDeclared declared := by
  have letters : ofDeclared variant = ofDeclared declared :=
    congrArg ofName (declaredName_of_variant sameLetters)
  constructor
  · refine (ofDeclared_eq_of_base ?_).trans letters
    simp only [String.toList_append]
    exact base_padded (List.all_eq_true.mp blankBefore) (List.all_eq_true.mp blankBehind) _
  · refine (ofDeclared_eq_of_base ?_).trans letters
    have paren : "(".toList ++ parameters.toList = '(' :: parameters.toList := rfl
    simp only [String.toList_append]
    rw [List.append_assoc, paren, base_append_paren]
    exact base_padded (List.forall_mem_nil _) (List.all_eq_true.mp blankGap) _

/-- A declaration that has a parenthesis and a letter outside ASCII itself. -/
theorem ofDeclared_eq_of_variant_parenthesis :
    let declared := "varchär (9"
    let variant := "VarCHär (9"
    CaseVariant declared.toList variant.toList ∧
    (allBlank "\u00a0\t" ∧ allBlank "\u2003" ∧ allBlank " ") ∧
    ofDeclared ("\u00a0\t" ++ variant ++ "\u2003") = ofDeclared declared ∧
    ofDeclared (variant ++ " " ++ "(" ++ ")(; int") = ofDeclared declared := by
  intro declared variant
  have sameLetters : CaseVariant declared.toList variant.toList := by decide
  have blank : allBlank "\u00a0\t" ∧ allBlank "\u2003" ∧ allBlank " " := by decide
  exact ⟨sameLetters, blank,
    ofDeclared_eq_of_variant declared variant "\u00a0\t" "\u2003" " " ")(; int" sameLetters
      blank.1 blank.2.1 blank.2.2⟩

/-! ### The word INTERVAL -/

theorem CaseVariant.refl (s : List Char) : CaseVariant s s :=
  List.forall₂_same.mpr fun _ _ => Or.inl rfl

theorem base_word_append {word : List Char} (letters : ∀ c ∈ word, c.isAlpha)
    (nonempty : word ≠ []) (rest : List Char) :
    base (word ++ rest) = word ++ trimRight (rest.takeWhile (· != '(')) := by
  have noParen : ∀ c ∈ word, c != '(' := fun c member => ne_paren rfl (letters c member)
  have visible : ∀ c ∈ word, isBlank c = false :=
    fun c member => isBlank_of_isAlpha (letters c member)
  have first (t : List Char) : trimLeft (word ++ t) = word ++ t := by
    refine trimLeft_of_head fun c head => visible c ?_
    rw [List.head?_append_of_ne_nil _ nonempty] at head
    exact List.mem_of_mem_head? head
  rw [base, List.takeWhile_append_of_pos noParen, trim, first, trimRight_append_of_visible visible]

theorem named_interval : ∀ e ∈ named, "INTERVAL".toList <+: e.1.toList → e.1 = "INTERVAL" := by
  decide

theorem ofName_interval (qualifier : List Char) :
    ofName ("INTERVAL".toList ++ qualifier) = if qualifier = [] then .other else .integer := by
  split
  · next none =>
    rw [none]
    decide
  · next nonempty =>
    have unnamed : named.find? (fun e => e.1.toList = "INTERVAL".toList ++ qualifier) = none := by
      rw [List.find?_eq_none]
      intro e member
      rw [decide_eq_true_eq]
      intro same
      have whole := named_interval e member (same ▸ List.prefix_append _ _)
      rw [whole, List.self_eq_append_right] at same
      exact nonempty same
    have begun : beginnings.find? (fun e =>
        e.1.toList.isPrefixOf ("INTERVAL".toList ++ qualifier)) = none := rfl
    have part : parts.find? (fun e =>
        occursIn e.1.toList ("INTERVAL".toList ++ qualifier)) = some ("INT", integer) := rfl
    rw [ofName, unnamed, begun, part]
    rfl

theorem declaredName_interval {before word : List Char} (blank : ∀ c ∈ before, isBlank c)
    (interval : CaseVariant "INTERVAL".toList word) (rest : List Char) :
    declaredName (before ++ word ++ rest) =
      "INTERVAL".toList ++ (trimRight (rest.takeWhile (· != '('))).map Char.toUpper := by
  have variant : CaseVariant (before ++ "INTERVAL".toList ++ rest) (before ++ word ++ rest) :=
    List.rel_append (List.rel_append (CaseVariant.refl before) interval) (CaseVariant.refl rest)
  have padded := base_padded blank (List.forall_mem_nil _) ("INTERVAL".toList ++ rest)
  have whole : base ("INTERVAL".toList ++ rest) =
      "INTERVAL".toList ++ trimRight (rest.takeWhile (· != '(')) :=
    base_word_append (List.all_eq_true.mp rfl) (by decide) rest
  have upper : "INTERVAL".toList.map Char.toUpper = "INTERVAL".toList := by decide
  rw [List.append_nil, ← List.append_assoc, whole] at padded
  rw [declaredName_of_variant variant, declaredName_eq, padded, List.map_append, upper]

/-- A declaration that starts with the word INTERVAL is of type `other` if nothing but blanks stands
between the word and the first parenthesis, and then every text for such a column is quoted. With
any other qualifier it is of type `integer`, by the letters INT at its start, and a text of digits
goes bare. -/
theorem ofDeclared_interval (before word rest : String) (blank : allBlank before)
    (interval : CaseVariant "INTERVAL".toList word.toList) :
    let qualifier := rest.toList.takeWhile (· != '(')
    let type := ofDeclared (before ++ word ++ rest)
    (type = if qualifier.all isBlank then .other else .integer) ∧
    ((∀ (d : Dialect) (s : String), d.literal (some type) (.text s) = Dialect.string s) ↔
      qualifier.all isBlank) := by
  intro qualifier type
  have same : type = if qualifier.all isBlank then .other else .integer := by
    have name := declaredName_interval (List.all_eq_true.mp blank) interval rest.toList
    have none : (trimRight qualifier).map Char.toUpper = [] ↔ qualifier.all isBlank := by
      rw [List.map_eq_nil_iff, trimRight_eq_nil_iff, List.all_eq_true]
    show ofName (declaredName (before ++ word ++ rest).toList) = _
    rw [String.toList_append, String.toList_append, name, ofName_interval]
    exact if_congr none rfl rfl
  refine ⟨same, ?_, fun all d s => ?_⟩
  · intro quoted
    by_contra more
    have bare := quoted .sqlite "7"
    rw [same, if_neg more] at bare
    exact absurd bare (by decide)
  · rw [same, if_pos all]
    rfl

/-- A qualifier of several words, with a parameter. -/
theorem ofDeclared_interval_second :
    let rest := " Day to Second(3)"
    let type := ofDeclared ("\t" ++ "Interval" ++ rest)
    allBlank "\t" ∧ CaseVariant "INTERVAL".toList "Interval".toList ∧ type = .integer ∧
      ¬ ∀ (d : Dialect) (s : String), d.literal (some type) (.text s) = Dialect.string s := by
  intro rest type
  have blank : allBlank "\t" := by decide
  have interval : CaseVariant "INTERVAL".toList "Interval".toList := by decide
  obtain ⟨same, quoted⟩ := ofDeclared_interval "\t" "Interval" rest blank interval
  have more : ¬ (rest.toList.takeWhile (· != '(')).all isBlank := by decide
  rw [if_neg more] at same
  exact ⟨blank, interval, same, fun all => more (quoted.mp all)⟩

theorem not_ofDeclared_interval_eq_other :
    ¬ ∀ before word rest : String, allBlank before → CaseVariant "INTERVAL".toList word.toList →
      (∀ c ∈ rest.toList.head?, isBlank c ∨ c = '(') →
      ofDeclared (before ++ word ++ rest) = .other := by
  intro all
  have stop : ∀ c ∈ " year to month".toList.head?, isBlank c ∨ c = '(' := by
    intro c first
    obtain rfl := Option.some.inj first
    decide
  have year := all "" "interval" " year to month" (by decide) (by decide) stop
  exact absurd year (by decide)

end SqlFragment.ColumnType
