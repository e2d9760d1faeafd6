import SqlFragment.Binary64.Basic
import SqlFragment.Calendar.Date

/-!
# Values

The scalars that a literal can carry. Two values are the same datum when all their bits agree; the
comparison of expressions uses `Value.same`, which compares floats as numbers.
-/

namespace SqlFragment

inductive Value where
  | null
  | boolean (b : Bool)
  | integer (i : Int64)
  | float (x : Binary64)
  | text (s : String)
  | date (d : Date)
  | timestamp (t : Timestamp)
  deriving DecidableEq

namespace Value

def ofOption : Option Value → Value
  | none => null
  | some v => v

def same : Value → Value → Bool
  | float x, float y => x.sameNumber y
  | v, w => v == w

end Value

end SqlFragment
