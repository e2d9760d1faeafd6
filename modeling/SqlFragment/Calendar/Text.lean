import SqlFragment.Calendar.Date
import SqlFragment.Numeral.Integer

/-!
# Dates and timestamps as text

Years from 0 to 9999 have four digits, all others a sign and at least four. A leap second is printed
as second 60. The fraction of a second has no digits, three, six or nine, the fewest that are exact.
-/

namespace SqlFragment

open Numeral

def yearText (year : Int) : List Char :=
  if year < 0 then '-' :: padded 4 year.natAbs
  else if 9999 < year then '+' :: padded 4 year.natAbs
  else padded 4 year.natAbs

namespace Date

def chars (d : Date) : List Char :=
  yearText d.year ++ '-' :: (padded 2 d.month ++ '-' :: padded 2 d.day)

def text (d : Date) : String := String.ofList d.chars

end Date

def fractionText (nanosecond : Nat) : List Char :=
  if nanosecond = 0 then []
  else if nanosecond % 10 ^ 6 = 0 then '.' :: padded 3 (nanosecond / 10 ^ 6)
  else if nanosecond % 10 ^ 3 = 0 then '.' :: padded 6 (nanosecond / 10 ^ 3)
  else '.' :: padded 9 nanosecond

def Time.chars (t : Time) : List Char :=
  padded 2 t.hour ++ ':' :: (padded 2 t.minute ++ ':' ::
    (padded 2 (t.second + t.nanosecond / 10 ^ 9) ++ fractionText (t.nanosecond % 10 ^ 9)))

namespace Timestamp

def chars (separator : Char) (t : Timestamp) : List Char :=
  t.date.chars ++ separator :: t.time.chars

def text (separator : Char) (t : Timestamp) : String := String.ofList (t.chars separator)

end Timestamp

end SqlFragment
