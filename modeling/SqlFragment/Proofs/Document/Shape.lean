import Mathlib.Data.List.Sort
import SqlFragment.Proofs.Build.Rules
import SqlFragment.Proofs.Document.Form

/-!
# The shape of documents

What a document has to look like for the expression that it describes, whether or not that keeps the
rules of construction: `Shaped l d e order` says that `d` describes `e`, and that `order` lists `e`
and the expressions below it in the order in which they are complete when `d` is read. The fields of
an object are read in the order of their names, the items of an array from left to right, and an
expression is complete behind its parts. Main statements: the order is the same for all documents
that describe the expression (`order_of_shaped`), and where it is not well built, one expression in
it is the first to break its rule (`Expr.exists_first_violation`).
-/

namespace SqlFragment

open Document Calendar

/-- The expressions in the fields of an object, field by field in the order of the names. -/
def byName (fields : List (String × List Expr)) : List Expr :=
  (fields.insertionSort fun f g => f.1 ≤ g.1).flatMap (·.2)

mutual

inductive Shaped (l : Layout) : Document → Expr → List Expr → Prop where
  | literalObject {fields : List (String × Document)} {d : Document} {v : Value}
      {target : Option Attribute} (found : fields.lookup "value" = some d) (value : ValueForm l d v)
      (bound : FieldOr (OptionForm AttributeForm) none fields "attribute" target) :
      Shaped l (object [("Literal", object fields)]) (.literal v target) [.literal v target]
  | literalArray {d c : Document} {v : Value} {target : Option Attribute} (value : ValueForm l d v)
      (bound : OptionForm AttributeForm c target) :
      Shaped l (object [("Literal", array [d, c])]) (.literal v target) [.literal v target]
  | raw (sql : String) : Shaped l (object [("SqlLiteral", string sql)]) (.raw sql) [.raw sql]
  | column {d : Document} {a : Attribute} (bound : AttributeForm d a) :
      Shaped l (object [("Attribute", d)]) (.column a) [.column a]
  | arithmeticObject {fields : List (String × Document)} {c m n : Document} {op : Operator}
      {left right : Expr} {ls rs : List Expr} (opFound : fields.lookup "operator" = some c)
      (unit : UnitForm op.name c) (leftFound : fields.lookup "left" = some m)
      (first : Shaped l m left ls) (rightFound : fields.lookup "right" = some n)
      (second : Shaped l n right rs) :
      Shaped l (object [("Infix", object fields)]) (.arithmetic op left right)
        (byName [("operator", []), ("left", ls), ("right", rs)] ++ [.arithmetic op left right])
  | arithmeticArray {c m n : Document} {op : Operator} {left right : Expr} {ls rs : List Expr}
      (unit : UnitForm op.name c) (first : Shaped l m left ls) (second : Shaped l n right rs) :
      Shaped l (object [("Infix", array [c, m, n])]) (.arithmetic op left right)
        (ls ++ rs ++ [.arithmetic op left right])
  | callObject {fields : List (String × Document)} {items : List Document} {name : String}
      {arguments order : List Expr} {distinct : Bool} {output : Option String}
      (nameFound : fields.lookup "name" = some (string name))
      (found : fields.lookup "arguments" = some (array items))
      (each : ShapedAll l items arguments order)
      (distinctForm : FieldOr BoolForm false fields "distinct" distinct)
      (outputForm : FieldOr (OptionForm StringForm) none fields "alias" output) :
      Shaped l (object [("Function", object fields)]) (.call name arguments distinct output)
        (byName [("name", []), ("arguments", order), ("distinct", []), ("alias", [])] ++
          [.call name arguments distinct output])
  | callArray {items tail : List Document} {name : String} {arguments order : List Expr}
      {distinct : Bool} {output : Option String} (each : ShapedAll l items arguments order)
      (rest : CallTail tail distinct output) :
      Shaped l (object [("Function", array (string name :: array items :: tail))])
        (.call name arguments distinct output) (order ++ [.call name arguments distinct output])
  | conjunction {items : List Document} {children order : List Expr}
      (each : ShapedAll l items children order) :
      Shaped l (object [("And", array items)]) (.conjunction children)
        (order ++ [.conjunction children])
  | negation {d : Document} {inner : Expr} {order : List Expr} (below : Shaped l d inner order) :
      Shaped l (object [("Not", d)]) (.negation inner) (order ++ [.negation inner])
  | row {ds cs : List Document} {items order : List Expr} {columns : List (Option Attribute)}
      (each : ShapedAll l ds items order)
      (targets : List.Forall₂ (OptionForm AttributeForm) cs columns) :
      Shaped l (object [("Values", array [array ds, array cs])]) (.row items columns)
        (order ++ [.row items columns])
  | namedObject {fields : List (String × Document)} {d : Document} {inner : Expr} {output : String}
      {order : List Expr} (found : fields.lookup "expr" = some d) (below : Shaped l d inner order)
      (outputFound : fields.lookup "alias" = some (string output)) :
      Shaped l (object [("As", object fields)]) (.named inner output)
        (byName [("expr", order), ("alias", [])] ++ [.named inner output])
  | namedArray {d : Document} {inner : Expr} {order : List Expr} (below : Shaped l d inner order)
      (output : String) :
      Shaped l (object [("As", array [d, string output])]) (.named inner output)
        (order ++ [.named inner output])

inductive ShapedAll (l : Layout) : List Document → List Expr → List Expr → Prop where
  | nil : ShapedAll l [] [] []
  | cons {d : Document} {e : Expr} {order : List Expr} {ds : List Document} {es others : List Expr}
      (first : Shaped l d e order) (rest : ShapedAll l ds es others) :
      ShapedAll l (d :: ds) (e :: es) (order ++ others)

end

/-! ### The order of reading -/

namespace Expr

mutual

/-- The expression and all below it, each behind its parts. -/
def postorder : Expr → List Expr
  | literal v target => [literal v target]
  | raw sql => [raw sql]
  | column a => [column a]
  | arithmetic op l r => l.postorder ++ r.postorder ++ [arithmetic op l r]
  | call name arguments distinct output =>
    postorderAll arguments ++ [call name arguments distinct output]
  | conjunction children => postorderAll children ++ [conjunction children]
  | negation inner => inner.postorder ++ [negation inner]
  | row items columns => postorderAll items ++ [row items columns]
  | named inner output => inner.postorder ++ [named inner output]

def postorderAll : List Expr → List Expr
  | [] => []
  | e :: rest => e.postorder ++ postorderAll rest

end

theorem postorderAll_eq_flatMap (es : List Expr) : postorderAll es = es.flatMap postorder := by
  induction es with
  | nil => rfl
  | cons e rest ih => rw [postorderAll, List.flatMap_cons, ih]

theorem postorder_eq (e : Expr) : e.postorder = e.parts.flatMap postorder ++ [e] := by
  cases e with
  | literal | raw | column => rfl
  | arithmetic | negation | named => simp [postorder, parts]
  | call | conjunction | row => rw [postorder, postorderAll_eq_flatMap, parts]

end Expr

theorem byName_arithmetic (ls rs : List Expr) :
    byName [("operator", []), ("left", ls), ("right", rs)] = ls ++ rs := by
  simp +decide [byName, List.insertionSort, List.orderedInsert]

theorem byName_call (order : List Expr) :
    byName [("name", []), ("arguments", order), ("distinct", []), ("alias", [])] = order := by
  simp +decide [byName, List.insertionSort, List.orderedInsert]

theorem byName_named (order : List Expr) : byName [("expr", order), ("alias", [])] = order := by
  simp +decide [byName, List.insertionSort, List.orderedInsert]

mutual

/-- The fields of an object and the items of an array come to the same order. -/
theorem order_of_shaped {l : Layout} {d : Document} {e : Expr} {order : List Expr}
    (h : Shaped l d e order) : order = e.postorder := by
  cases h with
  | literalObject | literalArray | raw | column => rfl
  | arithmeticObject _ _ _ first _ second =>
    rw [byName_arithmetic, order_of_shaped first, order_of_shaped second, Expr.postorder]
  | arithmeticArray _ first second =>
    rw [order_of_shaped first, order_of_shaped second, Expr.postorder]
  | callObject _ _ each => rw [byName_call, order_of_shapedAll each, Expr.postorder]
  | callArray each | conjunction each | row each => rw [order_of_shapedAll each, Expr.postorder]
  | namedObject _ below => rw [byName_named, order_of_shaped below, Expr.postorder]
  | negation below | namedArray below => rw [order_of_shaped below, Expr.postorder]

theorem order_of_shapedAll {l : Layout} {ds : List Document} {es order : List Expr}
    (h : ShapedAll l ds es order) : order = Expr.postorderAll es := by
  cases h with
  | nil => rfl
  | cons first rest => rw [order_of_shaped first, order_of_shapedAll rest, Expr.postorderAll]

end

/-! ### The first violation -/

theorem exists_first_not {α : Type} {p : α → Prop} {items : List α} (h : ¬ ∀ a ∈ items, p a) :
    ∃ before a after, items = before ++ a :: after ∧ (∀ b ∈ before, p b) ∧ ¬ p a := by
  induction items with
  | nil => exact absurd (List.forall_mem_nil p) h
  | cons first rest ih =>
    by_cases here : p first
    · obtain ⟨before, a, after, rfl, good, wrong⟩ := ih fun others =>
        h (List.forall_mem_cons.mpr ⟨here, others⟩)
      exact ⟨first :: before, a, after, rfl, List.forall_mem_cons.mpr ⟨here, good⟩, wrong⟩
    · exact ⟨[], first, rest, rfl, List.forall_mem_nil p, here⟩

namespace Expr

variable {e : Expr}

theorem keepsRule_of_mem_postorder (built : e.WellBuilt) : ∀ p ∈ e.postorder, p.KeepsRule := by
  unfold WellBuilt at built
  induction built with
  | @intro e here _ ih =>
    rw [postorder_eq]
    refine List.forall_mem_append.mpr ⟨?_, List.forall_mem_singleton.mpr here⟩
    intro p member
    obtain ⟨part, below, member⟩ := List.mem_flatMap.mp member
    exact ih part below p member

/-- What breaks a rule has a first part that does: all that stands before it keeps the rules, and so
do its own parts at every depth. -/
theorem exists_first_violation (broken : ¬ e.WellBuilt) :
    ∃ before part after, e.postorder = before ++ part :: after ∧ (∀ p ∈ before, p.KeepsRule) ∧
      ¬ part.KeepsRule ∧ ∀ below ∈ part.parts, below.WellBuilt := by
  have keep {es : List Expr} (built : ∀ e ∈ es, e.WellBuilt) :
      ∀ p ∈ es.flatMap postorder, p.KeepsRule := by
    intro p member
    obtain ⟨part, below, member⟩ := List.mem_flatMap.mp member
    exact keepsRule_of_mem_postorder (built part below) p member
  induction e using of_parts with
  | step e ih =>
    by_cases inside : ∀ p ∈ e.parts, p.WellBuilt
    · have here : ¬ e.KeepsRule := fun keeps => broken (.intro keeps inside)
      exact ⟨_, e, [], postorder_eq e, keep inside, here, inside⟩
    · obtain ⟨first, child, later, split, built, wrong⟩ := exists_first_not inside
      have member : child ∈ e.parts := split ▸ List.mem_append_cons_self
      obtain ⟨before, part, after, order, good, breaks, below⟩ := ih child member wrong
      refine ⟨first.flatMap postorder ++ before, part, after ++ later.flatMap postorder ++ [e], ?_,
        List.forall_mem_append.mpr ⟨keep built, good⟩, breaks, below⟩
      rw [postorder_eq, split, List.flatMap_append, List.flatMap_cons, order]
      simp only [List.append_assoc, List.cons_append]

end Expr

/-! ### What is represented has its shape -/

mutual

theorem exists_shaped {l : Layout} {d : Document} {e : Expr} (h : Represents l d e) :
    ∃ order, Shaped l d e order := by
  cases h with
  | literalObject found value bound => exact ⟨_, .literalObject found value bound⟩
  | literalArray value bound => exact ⟨_, .literalArray value bound⟩
  | raw sql => exact ⟨_, .raw sql⟩
  | column bound => exact ⟨_, .column bound⟩
  | arithmeticObject opFound unit leftFound first rightFound second =>
    obtain ⟨ls, left⟩ := exists_shaped first
    obtain ⟨rs, right⟩ := exists_shaped second
    exact ⟨_, .arithmeticObject opFound unit leftFound left rightFound right⟩
  | arithmeticArray unit first second =>
    obtain ⟨ls, left⟩ := exists_shaped first
    obtain ⟨rs, right⟩ := exists_shaped second
    exact ⟨_, .arithmeticArray unit left right⟩
  | callObject nameFound _ found each distinctForm outputForm =>
    obtain ⟨order, all⟩ := exists_shapedAll each
    exact ⟨_, .callObject nameFound found all distinctForm outputForm⟩
  | callArray _ each rest =>
    obtain ⟨order, all⟩ := exists_shapedAll each
    exact ⟨_, .callArray all rest⟩
  | conjunction each _ =>
    obtain ⟨order, all⟩ := exists_shapedAll each
    exact ⟨_, .conjunction all⟩
  | negation below =>
    obtain ⟨order, inner⟩ := exists_shaped below
    exact ⟨_, .negation inner⟩
  | row each targets _ _ =>
    obtain ⟨order, all⟩ := exists_shapedAll each
    exact ⟨_, .row all targets⟩
  | namedObject found below outputFound =>
    obtain ⟨order, inner⟩ := exists_shaped below
    exact ⟨_, .namedObject found inner outputFound⟩
  | namedArray below output =>
    obtain ⟨order, inner⟩ := exists_shaped below
    exact ⟨_, .namedArray inner output⟩

theorem exists_shapedAll {l : Layout} {ds : List Document} {es : List Expr}
    (h : RepresentsAll l ds es) : ∃ order, ShapedAll l ds es order := by
  cases h with
  | nil => exact ⟨_, .nil⟩
  | cons first rest =>
    obtain ⟨order, here⟩ := exists_shaped first
    obtain ⟨others, there⟩ := exists_shapedAll rest
    exact ⟨_, .cons here there⟩

end

end SqlFragment
