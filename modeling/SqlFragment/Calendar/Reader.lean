import SqlFragment.Calendar.Date
import SqlFragment.Numeral.Integer
import SqlFragment.Text.Blank

/-!
# Reading dates and timestamps

The fields stand in their usual order. Blanks may come before each field and before each separator,
but not before the point of a fraction. A year has up to four digits, or a sign and any number of
them; the other fields have one or two. Second 60 is a leap second, and digits of a fraction past
the ninth are dropped.
-/

namespace SqlFragment

open Text Numeral

namespace Calendar

/-- Reads from one to `most` digits from the front. -/
def readNumber? (most : Nat) (s : List Char) : Option (Nat × List Char) :=
  let ds := (s.take most).takeWhile Char.isDigit
  if ds = [] then none else some (ofDigits ds, s.drop ds.length)

def readYear? (s : List Char) : Option (Int × List Char) :=
  match trimLeft s with
  | '-' :: rest => (readNumber? rest.length rest).map fun (n, rest) => (-(n : Int), rest)
  | '+' :: rest => (readNumber? rest.length rest).map fun (n, rest) => ((n : Int), rest)
  | rest => (readNumber? 4 rest).map fun (n, rest) => ((n : Int), rest)

def readField? (s : List Char) : Option (Nat × List Char) := readNumber? 2 (trimLeft s)

def readSeparator? (separator : Char) (s : List Char) : Option (List Char) :=
  match trimLeft s with
  | c :: rest => if c = separator then some rest else none
  | [] => none

/-- Reads the digits behind a point as nanoseconds; a text that does not start with a point has
none. -/
def readFraction? (s : List Char) : Option (Nat × List Char) :=
  match s with
  | '.' :: rest =>
    let ds := rest.takeWhile Char.isDigit
    if ds = [] then none
    else
      let kept := ds.take 9
      some (ofDigits kept * 10 ^ (9 - kept.length), rest.drop ds.length)
  | rest => some (0, rest)

def readDay? (s : List Char) : Option (Date × List Char) := do
  let (year, s) ← readYear? s
  let s ← readSeparator? '-' s
  let (month, s) ← readField? s
  let s ← readSeparator? '-' s
  let (day, s) ← readField? s
  return (← Date.ofYmd? year month day, s)

/-- Second 60 stands for second 59 and another whole second. -/
def leapSecond (second nanosecond : Nat) : Nat × Nat :=
  if second = 60 then (59, nanosecond + 10 ^ 9) else (second, nanosecond)

def readTime? (s : List Char) : Option (Time × List Char) := do
  let (hour, s) ← readField? s
  let s ← readSeparator? ':' s
  let (minute, s) ← readField? s
  let s ← readSeparator? ':' s
  let (second, s) ← readField? s
  let (nanosecond, s) ← readFraction? s
  let (second, nanosecond) := leapSecond second nanosecond
  return (← Time.ofFields? hour minute second nanosecond, s)

end Calendar

def Date.read? (s : List Char) : Option Date := do
  let (date, rest) ← Calendar.readDay? s
  if rest.all isBlank then some date else none

def Timestamp.read? (s : List Char) : Option Timestamp := do
  let (date, s) ← Calendar.readDay? s
  let s ← Calendar.readSeparator? 'T' s
  let (time, rest) ← Calendar.readTime? s
  if rest.all isBlank then some ⟨date, time⟩ else none

end SqlFragment
