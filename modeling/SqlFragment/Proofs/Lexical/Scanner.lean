import SqlFragment.Text.Quoted

/-!
# Scanning SQL text

A scan of SQL text from left to right. It stops at whatever can end a statement or begin a comment
or an escape outside of quoted parts, and at a parenthesis that closes nothing. Texts are put
together by what they do to a scan: a token takes it from between two tokens to the end of one, and
what stands between two tokens takes it on to the next (`token_append_glue`).
-/

namespace SqlFragment

open Text

/-- Behind a mark it is open whether it ends the quoted part or is the first of two. -/
inductive Region where
  | outside (last : Char)
  | inside (mark : Char)
  | closing (mark : Char)
  deriving DecidableEq

/-- `depth` is the number of parentheses that are open outside of quoted parts. -/
structure Scan where
  region : Region
  depth : Nat
  deriving DecidableEq

namespace Scan

def start : Scan := ⟨.outside ' ', 0⟩

def enter (last : Char) (depth : Nat) (c : Char) : Option Scan :=
  if c = '\'' ∨ c = '"' then some ⟨.inside c, depth⟩
  else if c = ';' ∨ c = '\\' then none
  else if last = '-' ∧ c = '-' ∨ last = '/' ∧ c = '*' then none
  else if c = '(' then some ⟨.outside c, depth + 1⟩
  else if c = ')' then if depth = 0 then none else some ⟨.outside c, depth - 1⟩
  else some ⟨.outside c, depth⟩

def step (s : Scan) (c : Char) : Option Scan :=
  match s.region with
  | .outside last => enter last s.depth c
  | .inside mark => some ⟨if c = mark then .closing mark else .inside mark, s.depth⟩
  | .closing mark => if c = mark then some ⟨.inside mark, s.depth⟩ else enter mark s.depth c

@[simp] theorem step_outside (last : Char) (depth : Nat) (c : Char) :
    step ⟨.outside last, depth⟩ c = enter last depth c := rfl

@[simp] theorem step_inside (mark : Char) (depth : Nat) (c : Char) :
    step ⟨.inside mark, depth⟩ c =
      some ⟨if c = mark then .closing mark else .inside mark, depth⟩ := rfl

@[simp] theorem step_closing (mark : Char) (depth : Nat) (c : Char) :
    step ⟨.closing mark, depth⟩ c =
      if c = mark then some ⟨.inside mark, depth⟩ else enter mark depth c := rfl

def run : Scan → List Char → Option Scan
  | s, [] => some s
  | s, c :: rest => (s.step c).bind (run · rest)

def isFinal : Scan → Bool
  | ⟨.inside _, _⟩ => false
  | ⟨_, depth⟩ => depth == 0

theorem run_append (s : Scan) (left right : List Char) :
    s.run (left ++ right) = (s.run left).bind (run · right) := by
  induction left generalizing s with
  | nil => rfl
  | cons c rest ih =>
    rw [List.cons_append, run, run]
    cases s.step c with
    | none => rfl
    | some next => exact ih next

theorem run_double (mark : Char) (depth : Nat) (text : List Char) :
    run ⟨.inside mark, depth⟩ (double mark text ++ [mark]) = some ⟨.closing mark, depth⟩ := by
  induction text with
  | nil => simp [double, run]
  | cons c rest ih =>
    rw [double]
    split
    · simp [run, ih]
    · next ne => simp [run, ih, ne]

end Scan

/-- Nothing ends, begins or escapes anything outside of quoted parts, and all that was opened is
closed in the end. -/
def isSafe (text : String) : Bool := (Scan.start.run text.toList).any Scan.isFinal

/-! ### Between the tokens -/

def Outside (depth : Nat) (s : Scan) : Prop := ∃ last, s = ⟨.outside last, depth⟩

/-- Behind a character that no comment starts with. -/
def Calm (depth : Nat) (s : Scan) : Prop :=
  ∃ last, last ≠ '-' ∧ last ≠ '/' ∧ s = ⟨.outside last, depth⟩

/-- At the end of a token, which may be a quoted part. -/
def Ended (depth : Nat) (s : Scan) : Prop :=
  Calm depth s ∨ ∃ mark, (mark = '\'' ∨ mark = '"') ∧ s = ⟨.closing mark, depth⟩

def Moves (From To : Scan → Prop) (text : List Char) : Prop :=
  ∀ s, From s → ∃ after, s.run text = some after ∧ To after

def Token (text : String) : Prop := ∀ depth, Moves (Calm depth) (Ended depth) text.toList

/-- What can stand between two tokens. -/
def Glue (text : String) : Prop := ∀ depth, Moves (Ended depth) (Calm depth) text.toList

theorem isFinal_of_ended {s : Scan} (h : Ended 0 s) : s.isFinal := by
  obtain ⟨last, -, -, rfl⟩ | ⟨mark, -, rfl⟩ := h <;> rfl

theorem Token.isSafe {text : String} (h : Token text) : isSafe text := by
  obtain ⟨after, reached, ended⟩ := h 0 .start ⟨' ', by decide, by decide, rfl⟩
  rw [SqlFragment.isSafe, reached]
  exact isFinal_of_ended ended

namespace Moves

variable {From Between To : Scan → Prop} {left right : List Char} {depth : Nat}

theorem append (first : Moves From Between left) (second : Moves Between To right) :
    Moves From To (left ++ right) := by
  intro s here
  obtain ⟨middle, reached, between⟩ := first s here
  obtain ⟨after, ended, there⟩ := second middle between
  refine ⟨after, ?_, there⟩
  rw [Scan.run_append, reached]
  exact ended

theorem of_imp {Wide : Scan → Prop} (h : Moves From Between left) (wider : ∀ s, Between s → Wide s) :
    Moves From Wide left := by
  intro s here
  obtain ⟨after, reached, between⟩ := h s here
  exact ⟨after, reached, wider after between⟩

end Moves

/-! ### Characters without a meaning of their own -/

def special : List Char := ['\'', '"', ';', '\\', '-', '/', '*', '(', ')']

def isInert (c : Char) : Bool := !special.contains c

theorem enter_inert {c : Char} (inert : isInert c) (last : Char) (depth : Nat) :
    Scan.enter last depth c = some ⟨.outside c, depth⟩ := by
  simp only [isInert, special, List.contains_cons, List.contains_nil, Bool.not_eq_true',
    Bool.or_eq_false_iff, beq_eq_false_iff_ne] at inert
  obtain ⟨quote, mark, semicolon, backslash, hyphen, -, star, left, right, -⟩ := inert
  simp [Scan.enter, *]

theorem calm_of_inert {c : Char} (inert : isInert c) (depth : Nat) :
    Calm depth ⟨.outside c, depth⟩ := by
  refine ⟨c, ?_, ?_, rfl⟩ <;> rintro rfl <;> exact absurd inert (by decide)

theorem step_inert {c : Char} (inert : isInert c) {depth : Nat} {s : Scan} (h : Ended depth s) :
    s.step c = some ⟨.outside c, depth⟩ := by
  obtain ⟨last, -, -, rfl⟩ | ⟨mark, quote, rfl⟩ := h
  · exact enter_inert inert last depth
  · have ne : c ≠ mark := by
      rintro rfl
      obtain rfl | rfl := quote <;> exact absurd inert (by decide)
    rw [Scan.step_closing, if_neg ne]
    exact enter_inert inert mark depth

theorem moves_inert {text : List Char} (inert : text.all isInert) (depth : Nat) :
    Moves (Calm depth) (Calm depth) text := by
  induction text with
  | nil => exact fun s calm => ⟨s, rfl, calm⟩
  | cons c rest ih =>
    rw [List.all_cons, Bool.and_eq_true] at inert
    intro s calm
    obtain ⟨after, reached, ended⟩ := ih inert.2 _ (calm_of_inert inert.1 depth)
    refine ⟨after, ?_, ended⟩
    rw [Scan.run, step_inert inert.1 (Or.inl calm)]
    exact reached

theorem moves_inert_cons {c : Char} {rest : List Char} (inert : (c :: rest).all isInert)
    (depth : Nat) : Moves (Outside depth) (Calm depth) (c :: rest) := by
  rw [List.all_cons, Bool.and_eq_true] at inert
  rintro _ ⟨last, rfl⟩
  obtain ⟨after, reached, ended⟩ := moves_inert inert.2 depth _ (calm_of_inert inert.1 depth)
  refine ⟨after, ?_, ended⟩
  rw [Scan.run, Scan.step_outside, enter_inert inert.1]
  exact reached

theorem token_inert {text : String} (inert : text.toList.all isInert) : Token text :=
  fun depth => (moves_inert inert depth).of_imp fun _ => Or.inl

theorem glue_inert {c : Char} {rest : List Char} (inert : (c :: rest).all isInert) :
    Glue (String.ofList (c :: rest)) := by
  rw [List.all_cons, Bool.and_eq_true] at inert
  intro depth s ended
  obtain ⟨after, reached, calm⟩ := moves_inert inert.2 depth _ (calm_of_inert inert.1 depth)
  refine ⟨after, ?_, calm⟩
  rw [String.toList_ofList, Scan.run, step_inert inert.1 ended]
  exact reached

/-! ### Putting tokens together -/

theorem token_quoted {mark : Char} (quote : mark = '\'' ∨ mark = '"') (text : String) :
    Token (quoted mark text) := by
  rintro depth _ ⟨last, -, -, rfl⟩
  refine ⟨⟨.closing mark, depth⟩, ?_, Or.inr ⟨mark, quote, rfl⟩⟩
  have opened : Scan.enter last depth mark = some ⟨.inside mark, depth⟩ := if_pos quote
  rw [quoted, String.toList_ofList, enclose, Scan.run, Scan.step_outside, opened]
  exact Scan.run_double mark depth text.toList

theorem token_append_glue {left : String} (first : Token left) {glue : String} (between : Glue glue)
    {right : String} (second : Token right) : Token (left ++ glue ++ right) := by
  intro depth
  rw [String.toList_append, String.toList_append]
  exact ((first depth).append (between depth)).append (second depth)

theorem token_intercalate {glue : String} (between : Glue glue) {texts : List String}
    (each : ∀ text ∈ texts, Token text) : Token (glue.intercalate texts) := by
  induction texts with
  | nil => exact token_inert rfl
  | cons first rest ih =>
    cases rest with
    | nil =>
      rw [String.intercalate_singleton]
      exact each first List.mem_cons_self
    | cons second rest =>
      rw [String.intercalate_cons_cons]
      exact token_append_glue (each first List.mem_cons_self) between
        (ih fun text member => each text (List.mem_cons_of_mem first member))

theorem moves_opening {word : List Char} (inert : word.all isInert) (depth : Nat) :
    Moves (Calm depth) (Calm (depth + 1)) (word ++ ['(']) := by
  refine (moves_inert inert depth).append ?_
  rintro _ ⟨last, -, -, rfl⟩
  refine ⟨⟨.outside '(', depth + 1⟩, ?_, '(', by decide, by decide, rfl⟩
  simp [Scan.run, Scan.enter]

theorem moves_closing (depth : Nat) : Moves (Ended (depth + 1)) (Calm depth) [')'] := by
  intro s ended
  refine ⟨⟨.outside ')', depth⟩, ?_, ')', by decide, by decide, rfl⟩
  obtain ⟨last, -, -, rfl⟩ | ⟨mark, rfl | rfl, rfl⟩ := ended <;> simp [Scan.run, Scan.enter]

end SqlFragment
