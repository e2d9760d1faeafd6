/-!
# Blank characters

The characters with the Unicode property `White_Space`, and the removal of blanks from both ends of
a text. Main statements: trimming drops blanks before and behind the text and nothing else
(`eq_append_trim`), and blanks put there make no difference (`trim_padded`).
-/

namespace SqlFragment.Text

/-- The code point ranges of the property `White_Space`, ends included. -/
def blankRanges : List (Nat × Nat) :=
  [(0x09, 0x0D), (0x20, 0x20), (0x85, 0x85), (0xA0, 0xA0), (0x1680, 0x1680), (0x2000, 0x200A),
    (0x2028, 0x2029), (0x202F, 0x202F), (0x205F, 0x205F), (0x3000, 0x3000)]

def isBlank (c : Char) : Bool :=
  blankRanges.any fun (low, high) => low ≤ c.toNat && c.toNat ≤ high

def trimLeft (s : List Char) : List Char := s.dropWhile isBlank

def trimRight (s : List Char) : List Char := (trimLeft s.reverse).reverse

def trim (s : List Char) : List Char := trimRight (trimLeft s)

/-- A text of blanks only; the empty text is one. -/
def allBlank (s : String) : Bool := s.toList.all isBlank

/-! ### Characters that are no blanks -/

theorem isBlank_of_graphic {c : Char} (low : 0x21 ≤ c.toNat) (high : c.toNat ≤ 0x7E) :
    isBlank c = false := by
  simp only [isBlank, blankRanges, List.any_cons, List.any_nil, Bool.or_eq_false_iff,
    Bool.and_eq_false_iff, decide_eq_false_iff_not, and_true]
  omega

theorem isBlank_of_isDigit {c : Char} (digit : c.isDigit) : isBlank c = false := by
  have range : 48 ≤ c.toNat ∧ c.toNat ≤ 57 := by
    simpa [Char.isDigit, UInt32.le_iff_toNat_le] using digit
  exact isBlank_of_graphic (by omega) (by omega)

/-! ### Blanks at the ends of a text -/

theorem eq_append_trimLeft (s : List Char) : ∃ u, (∀ c ∈ u, isBlank c) ∧ s = u ++ trimLeft s :=
  ⟨s.takeWhile isBlank, fun _ h => List.all_eq_true.mp List.all_takeWhile _ h,
    (List.takeWhile_append_dropWhile).symm⟩

theorem eq_trimRight_append (s : List Char) : ∃ v, (∀ c ∈ v, isBlank c) ∧ s = trimRight s ++ v := by
  obtain ⟨u, blank, same⟩ := eq_append_trimLeft s.reverse
  refine ⟨u.reverse, fun c h => blank c (List.mem_reverse.mp h), ?_⟩
  rw [trimRight, ← List.reverse_append, ← same, List.reverse_reverse]

theorem eq_append_trim (s : List Char) :
    ∃ u v, (∀ c ∈ u, isBlank c) ∧ (∀ c ∈ v, isBlank c) ∧ s = u ++ trim s ++ v := by
  obtain ⟨u, blankU, left⟩ := eq_append_trimLeft s
  obtain ⟨v, blankV, right⟩ := eq_trimRight_append (trimLeft s)
  refine ⟨u, v, blankU, blankV, ?_⟩
  rw [List.append_assoc, trim, ← right, ← left]

theorem trimLeft_append_of_blank {u : List Char} (blank : ∀ c ∈ u, isBlank c) (s : List Char) :
    trimLeft (u ++ s) = trimLeft s :=
  List.dropWhile_append_of_pos blank

theorem trimRight_append_of_blank {v : List Char} (blank : ∀ c ∈ v, isBlank c) (s : List Char) :
    trimRight (s ++ v) = trimRight s := by
  have reversed : ∀ c ∈ v.reverse, isBlank c := fun c h => blank c (List.mem_reverse.mp h)
  rw [trimRight, List.reverse_append, trimLeft_append_of_blank reversed, trimRight]

theorem trimLeft_of_head {s : List Char} (first : ∀ c ∈ s.head?, isBlank c = false) :
    trimLeft s = s := by
  cases s with
  | nil => rfl
  | cons c rest => exact List.dropWhile_cons_of_neg (by simp [first c rfl])

theorem trim_of_visible {s : List Char} (visible : ∀ c ∈ s, isBlank c = false) : trim s = s := by
  have first : ∀ c ∈ s.head?, isBlank c = false :=
    fun c h => visible c (List.mem_of_mem_head? h)
  have last : ∀ c ∈ s.reverse.head?, isBlank c = false :=
    fun c h => visible c (List.mem_reverse.mp (List.mem_of_mem_head? h))
  rw [trim, trimLeft_of_head first, trimRight, trimLeft_of_head last, List.reverse_reverse]

theorem trimRight_eq_nil_iff {s : List Char} : trimRight s = [] ↔ ∀ c ∈ s, isBlank c := by
  constructor
  · intro none
    obtain ⟨v, blank, split⟩ := eq_trimRight_append s
    rw [none, List.nil_append] at split
    rwa [split]
  · intro blank
    have none := trimRight_append_of_blank blank []
    rwa [List.nil_append] at none

theorem trimRight_append_of_visible {s : List Char} (visible : ∀ c ∈ s, isBlank c = false)
    (t : List Char) : trimRight (s ++ t) = s ++ trimRight t := by
  have last : ∀ c ∈ s.reverse.head?, isBlank c = false :=
    fun c h => visible c (List.mem_reverse.mp (List.mem_of_mem_head? h))
  rw [trimRight, List.reverse_append, trimLeft, List.dropWhile_append]
  split
  · next blank =>
    have none : trimRight t = [] := congrArg List.reverse (List.isEmpty_iff.mp blank)
    have kept := trimLeft_of_head last
    rw [trimLeft] at kept
    rw [kept, none, List.reverse_reverse, List.append_nil]
  · rw [List.reverse_append, List.reverse_reverse]
    rfl

theorem trim_padded {u v : List Char} (before : ∀ c ∈ u, isBlank c) (behind : ∀ c ∈ v, isBlank c)
    (s : List Char) : trim (u ++ s ++ v) = trim s := by
  rw [List.append_assoc, trim, trimLeft_append_of_blank before, trim, trimLeft,
    List.dropWhile_append]
  split
  · next blank =>
    -- Nothing is left of `s`, so what follows it counts as blanks before.
    rw [trimLeft, List.isEmpty_iff.mp blank, ← List.append_nil v,
      List.dropWhile_append_of_pos behind]
    rfl
  · exact trimRight_append_of_blank behind _

end SqlFragment.Text
