import SqlFragment.Expr.Basic

namespace SqlFragment.Expr

mutual

def same : Expr → Expr → Bool
  | literal v a, literal w b => v.same w && a == b
  | raw s, raw t => s == t
  | column a, column b => a == b
  | arithmetic p l r, arithmetic q m s => p == q && l.same m && r.same s
  | call n as d o, call m bs e p => n == m && sameAll as bs && d == e && o == p
  | conjunction as, conjunction bs => sameAll as bs
  | negation e, negation f => e.same f
  | row as cs, row bs ds => sameAll as bs && cs == ds
  | named e o, named f p => e.same f && o == p
  | _, _ => false

def sameAll : List Expr → List Expr → Bool
  | [], [] => true
  | e :: es, f :: fs => e.same f && sameAll es fs
  | _, _ => false

end

end SqlFragment.Expr
