/-!
# Dates and timestamps

Days of the proleptic Gregorian calendar and moments of a day with nanoseconds. The second 59 may
hold a second more: nanoseconds from `10 ^ 9` on stand for a leap second. Main statements: the
fields of a date and of a time give it back.
-/

-- Powers are the built-in ones, whatever other instances are in scope.
attribute [instance (2000), default_instance 20000] instPowNat

namespace SqlFragment

def isLeapYear (year : Int) : Bool := year % 4 = 0 && (year % 100 ≠ 0 || year % 400 = 0)

def daysInMonth (year : Int) (month : Nat) : Nat :=
  if month = 2 then (if isLeapYear year then 29 else 28)
  else if month = 4 ∨ month = 6 ∨ month = 9 ∨ month = 11 then 30
  else 31

structure Date where
  year : Int
  month : Nat
  day : Nat
  year_range : -262143 ≤ year ∧ year ≤ 262142
  month_range : 1 ≤ month ∧ month ≤ 12
  day_range : 1 ≤ day ∧ day ≤ daysInMonth year month
  deriving DecidableEq

def Date.ofYmd? (year : Int) (month day : Nat) : Option Date :=
  if hy : -262143 ≤ year ∧ year ≤ 262142 then
    if hm : 1 ≤ month ∧ month ≤ 12 then
      if hd : 1 ≤ day ∧ day ≤ daysInMonth year month then some ⟨year, month, day, hy, hm, hd⟩
      else none
    else none
  else none

structure Time where
  hour : Nat
  minute : Nat
  second : Nat
  nanosecond : Nat
  hour_lt : hour < 24
  minute_lt : minute < 60
  second_lt : second < 60
  nanosecond_lt : nanosecond < 2 * 10 ^ 9 ∧ (10 ^ 9 ≤ nanosecond → second = 59)
  deriving DecidableEq

def Time.ofFields? (hour minute second nanosecond : Nat) : Option Time :=
  if h : (hour < 24 ∧ minute < 60 ∧ second < 60) ∧
      nanosecond < 2 * 10 ^ 9 ∧ (10 ^ 9 ≤ nanosecond → second = 59) then
    some ⟨hour, minute, second, nanosecond, h.1.1, h.1.2.1, h.1.2.2, h.2⟩
  else none

structure Timestamp where
  date : Date
  time : Time
  deriving DecidableEq

theorem Date.ofYmd?_self (d : Date) : Date.ofYmd? d.year d.month d.day = some d := by
  rw [Date.ofYmd?, dif_pos d.year_range, dif_pos d.month_range, dif_pos d.day_range]

theorem Time.ofFields?_self (t : Time) :
    Time.ofFields? t.hour t.minute t.second t.nanosecond = some t := by
  rw [Time.ofFields?, dif_pos ⟨⟨t.hour_lt, t.minute_lt, t.second_lt⟩, t.nanosecond_lt⟩]

end SqlFragment
