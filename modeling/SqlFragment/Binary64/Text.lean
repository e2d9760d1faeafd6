import SqlFragment.Binary64.Shortest

namespace SqlFragment.Binary64

/-- The number `0.d₁d₂… * 10 ^ point`, without zeros at the end of the digits. -/
structure Digits where
  digits : List Char
  point : Int
  deriving DecidableEq

def dropZeros (ds : List Char) : List Char := (ds.reverse.dropWhile (· == '0')).reverse

/-- The digits of the double at place `n`; none for zero. -/
def placeDigits (n : Nat) : Digits :=
  if n = 0 then ⟨[], 1⟩
  else
    let (coefficient, exponent) := shortest n
    let ds := Numeral.digits coefficient
    ⟨dropZeros ds, exponent + ds.length⟩

def zeros (n : Nat) : List Char := List.replicate n '0'

namespace Digits

def whole (d : Digits) : List Char :=
  if d.point ≤ 0 then ['0']
  else d.digits.take d.point.toNat ++ zeros (d.point.toNat - d.digits.length)

def fraction (d : Digits) : List Char :=
  if d.point ≤ 0 then zeros (-d.point).toNat ++ d.digits else d.digits.drop d.point.toNat

def positional (d : Digits) : List Char :=
  if d.fraction = [] then d.whole else d.whole ++ '.' :: d.fraction

/-- One digit before the point, and the exponent without a plus sign or leading zeros. -/
def scientific (d : Digits) : List Char :=
  let mantissa := match d.digits with
    | [] => ['0']
    | [c] => [c]
    | c :: rest => c :: '.' :: rest
  mantissa ++ 'e' :: Numeral.ofInt (d.point - 1)

/-- Positional from `10 ^ -4` up to `10 ^ 16`, with at least one digit behind the point, else
scientific. -/
def marked (d : Digits) : List Char :=
  if -3 ≤ d.point ∧ d.point ≤ 16 then
    if d.fraction = [] then d.whole ++ ['.', '0'] else d.positional
  else d.scientific

end Digits

def sign (x : Binary64) : List Char := if x.negative then ['-'] else []

/-- A finite double with a point or an exponent. -/
def markedText (x : Binary64) : String :=
  String.ofList (x.sign ++ (placeDigits x.magnitude).marked)

/-- Any double, never with an exponent. -/
def plainText (x : Binary64) : String :=
  if x.isNaN then "NaN"
  else if x.isInfinite then String.ofList (x.sign ++ ['i', 'n', 'f'])
  else String.ofList (x.sign ++ (placeDigits x.magnitude).positional)

end SqlFragment.Binary64
