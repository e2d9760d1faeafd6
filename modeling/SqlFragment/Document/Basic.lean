import SqlFragment.Binary64.Nearest

/-!
# Documents

Trees of plain data: null, booleans, numbers, strings, arrays and objects. A number is an integer if
it was written without a point and an exponent and fits into 64 bits, signed or not; every other
number is a double.
-/

namespace SqlFragment

inductive Document where
  | null
  | bool (b : Bool)
  | integer (i : Int)
  | float (x : Binary64)
  | string (s : String)
  | array (items : List Document)
  | object (fields : List (String × Document))

namespace Document

open Numeral

/-- The number that a numeral stands for. Minus zero is a double. -/
def ofNumeral? (s : List Char) : Option Document :=
  let (negative, ds) := splitSign s
  let n := ofDigits ds
  let whole := ds ≠ [] ∧ ds.all Char.isDigit
  if whole ∧ negative ∧ 0 < n ∧ n ≤ 2 ^ 63 then some (integer (-n))
  else if whole ∧ ¬ negative ∧ n < 2 ^ 64 then some (integer n)
  else (Binary64.read? s).map float

/-- An object of the given fields; of fields with one name the last counts. -/
def ofFields (fields : List (String × Document)) : Document :=
  object (fields.foldr (fun f rest => if rest.any (·.1 == f.1) then rest else f :: rest) [])

mutual

def depth : Document → Nat
  | array items => depthAll items + 1
  | object fields => depthFields fields + 1
  | _ => 1

def depthAll : List Document → Nat
  | [] => 0
  | d :: rest => max d.depth (depthAll rest)

def depthFields : List (String × Document) → Nat
  | [] => 0
  | (_, d) :: rest => max d.depth (depthFields rest)

end

end Document

end SqlFragment
