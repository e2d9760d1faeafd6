namespace SqlFragment.Text

/-- Each mark twice, all else once. -/
def double (mark : Char) : List Char → List Char
  | [] => []
  | c :: rest => if c = mark then mark :: mark :: double mark rest else c :: double mark rest

def enclose (mark : Char) (s : List Char) : List Char := mark :: (double mark s ++ [mark])

def quoted (mark : Char) (s : String) : String := String.ofList (enclose mark s.toList)

/-- Reads up to the first mark that stands alone, and gives what follows it. -/
def readBody (mark : Char) : List Char → Option (List Char × List Char)
  | [] => none
  | [c] => if c = mark then some ([], []) else none
  | c :: d :: rest =>
    if c = mark then
      if d = mark then (readBody mark rest).map fun (body, after) => (mark :: body, after)
      else some ([], d :: rest)
    else (readBody mark (d :: rest)).map fun (body, after) => (c :: body, after)

/-- Reads one quoted text from the front, and gives what follows it. -/
def readEnclosed (mark : Char) : List Char → Option (List Char × List Char)
  | [] => none
  | c :: rest => if c = mark then readBody mark rest else none

theorem double_of_not_mem {mark : Char} {s : List Char} (none : mark ∉ s) : double mark s = s := by
  induction s with
  | nil => rfl
  | cons c rest ih =>
    rw [List.mem_cons, not_or] at none
    rw [double, if_neg (Ne.symm none.1), ih none.2]

theorem length_le_double (mark : Char) (s : List Char) : s.length ≤ (double mark s).length := by
  induction s with
  | nil => exact Nat.le_refl _
  | cons c rest ih =>
    rw [double]
    split <;> simp only [List.length_cons] <;> omega

theorem readBody_mark {mark : Char} {after : List Char} (alone : after.head? ≠ some mark) :
    readBody mark (mark :: after) = some ([], after) := by
  cases after with
  | nil => simp [readBody]
  | cons d rest =>
    have ne : d ≠ mark := by simpa using alone
    simp [readBody, ne]

theorem readBody_cons {mark c : Char} (ne : c ≠ mark) (rest : List Char) :
    readBody mark (c :: rest) =
      (readBody mark rest).map fun (body, after) => (c :: body, after) := by
  cases rest with
  | nil => simp [readBody, ne]
  | cons d rest => rw [readBody, if_neg ne]

theorem readBody_double {mark : Char} {after : List Char} (alone : after.head? ≠ some mark)
    (s : List Char) : readBody mark (double mark s ++ mark :: after) = some (s, after) := by
  induction s with
  | nil => exact readBody_mark alone
  | cons c rest ih =>
    rw [double]
    split
    · next same => simp [readBody, ih, same]
    · next ne => simp [readBody_cons ne, ih]

/-- A quoted text reads back, whatever follows it that is not another mark. -/
theorem read_enclose {mark : Char} {after : List Char} (alone : after.head? ≠ some mark)
    (s : List Char) : readEnclosed mark (enclose mark s ++ after) = some (s, after) := by
  simpa [readEnclosed, enclose] using readBody_double alone s

end SqlFragment.Text
