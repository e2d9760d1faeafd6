import SqlFragment.Numeral.Integer

/-!
# Decimal numbers as text

The grammar of a decimal number: an optional sign, digits with at most one point among them or at
either end, and an optional exponent. A number that was read is a sign, a coefficient and a power
of ten, so no digit is lost.
-/

namespace SqlFragment.Numeral

/-- The number `coefficient * 10 ^ exponent`, with a sign of its own. -/
structure Decimal where
  negative : Bool
  coefficient : Nat
  exponent : Int
  deriving DecidableEq

namespace Decimal

/-- A run of digits, a point, and a second run; at least one of the runs holds a digit. -/
def readMantissa? (s : List Char) : Option ((List Char × List Char) × List Char) :=
  let whole := s.takeWhile Char.isDigit
  let (fraction, rest) := match s.dropWhile Char.isDigit with
    | '.' :: r => (r.takeWhile Char.isDigit, r.dropWhile Char.isDigit)
    | r => ([], r)
  if whole = [] ∧ fraction = [] then none else some ((whole, fraction), rest)

/-- Nothing, or an exponent mark with an optional sign and digits, up to the end of the text. -/
def readExponent? (s : List Char) : Option Int :=
  match s with
  | [] => some 0
  | c :: rest =>
    if c = 'e' ∨ c = 'E' then
      let (negative, ds) := splitSign rest
      if ds ≠ [] ∧ ds.all Char.isDigit then some (applySign negative (ofDigits ds)) else none
    else none

def read? (s : List Char) : Option Decimal := do
  let (negative, s) := splitSign s
  let ((whole, fraction), rest) ← readMantissa? s
  let exponent ← readExponent? rest
  return ⟨negative, ofDigits (whole ++ fraction), exponent - fraction.length⟩

end Decimal

end SqlFragment.Numeral
