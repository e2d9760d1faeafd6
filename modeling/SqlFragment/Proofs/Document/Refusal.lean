import SqlFragment.Proofs.Document.Grammar
import SqlFragment.Proofs.Document.Shape

/-!
# What is refused, and why

A document that has the shape of an expression is read as that expression unless a constructor
refuses one of the expressions in it. Reading checks them in the order in which they are complete,
so what is reported is the cause that the constructor gives for the first that breaks its rule. Main
statements: `decode_of_shaped` and `refused_at_first_violation`.
-/

namespace SqlFragment

open Document Calendar

/-! ### Causes -/

def causeOf : Except ConstructionError Expr → Option ConstructionError
  | .error cause => some cause
  | .ok _ => none

theorem causeOf_eq_some_iff {x : Except ConstructionError Expr} {cause : ConstructionError} :
    causeOf x = some cause ↔ x = .error cause := by
  cases x <;> simp [causeOf]

theorem causeOf_checked (e : Expr) (cause : ConstructionError) :
    causeOf (e.checked cause) = if e.KeepsRule then none else some cause := by
  unfold Expr.checked
  split <;> rfl

namespace Expr

/-- What the constructor of its kind makes of the parts of an expression. -/
def constructed : Expr → Except ConstructionError Expr
  | call name arguments _ _ => callOf name arguments
  | conjunction children => conjunctionOf children
  | row items columns => rowOf items columns
  | e => .ok e

theorem causeOf_constructed (e : Expr) : causeOf e.constructed = none ↔ e.KeepsRule := by
  have checks {made : Expr} {cause : ConstructionError} :
      causeOf (made.checked cause) = none ↔ made.KeepsRule := by
    rw [causeOf_checked]
    split <;> simp [*]
  cases e with
  | call =>
    rw [constructed, callOf_eq_checked]
    exact checks
  | conjunction =>
    rw [constructed, conjunctionOf_eq_checked]
    exact checks
  | row =>
    rw [constructed, rowOf_eq_checked]
    exact checks
  | _ => simp [constructed, causeOf, KeepsRule]

/-- The cause that is given for the first of the expressions that is refused. -/
def firstCause? (order : List Expr) : Option ConstructionError :=
  order.findSome? fun e => causeOf e.constructed

theorem firstCause?_append (order others : List Expr) :
    firstCause? (order ++ others) = (firstCause? order).or (firstCause? others) :=
  List.findSome?_append

theorem firstCause?_concat (order : List Expr) (e : Expr) :
    firstCause? (order ++ [e]) = (firstCause? order).or (causeOf e.constructed) := by
  rw [firstCause?_append]
  exact congrArg _ List.findSome?_singleton

end Expr

/-! ### Reading, unless refused -/

section Reading

variable {α β : Type} {first second : Option ConstructionError} {a : α} {b : β}

/-- The result of a reading that fails only where something is refused. -/
def unlessRefused (cause : Option ConstructionError) (a : α) : Except DecodeError α :=
  cause.elim (.ok a) fun cause => .error (.construction cause)

theorem bind_of_ok {x : Except DecodeError α} {f : α → Except DecodeError β}
    {y : Except DecodeError β} (taken : x = .ok a) (rest : f a = y) : (x >>= f) = y := by
  rw [taken]
  exact rest

theorem bind_unlessRefused {x : Except DecodeError α} {f : α → Except DecodeError β}
    (taken : x = unlessRefused first a) (rest : f a = unlessRefused second b) :
    (x >>= f) = unlessRefused (first.or second) b := by
  rw [taken]
  cases first with
  | none => exact rest
  | some cause => rfl

theorem map_unlessRefused {x : Except DecodeError α} (f : α → β)
    (taken : x = unlessRefused first a) : f <$> x = unlessRefused first (f a) := by
  rw [taken]
  cases first <;> rfl

variable {read : Reader α} {d : Document}

theorem field?_unlessRefused {fields : List (String × Document)} {name : String}
    (found : fields.lookup name = some d) (taken : read d = unlessRefused first a) :
    field? fields name read = unlessRefused first (some a) := by
  rw [field?, found]
  exact map_unlessRefused some taken

theorem nextItem_unlessRefused (taken : read d = unlessRefused first a) (rest : List Document) :
    nextItem read (d :: rest) = unlessRefused first (a, rest) :=
  map_unlessRefused (·, rest) taken

end Reading

namespace Expr

theorem built_checked (e : Expr) (cause : ConstructionError) :
    built (e.checked cause) = unlessRefused (causeOf (e.checked cause)) e := by
  rw [causeOf_checked, checked]
  split <;> rfl

theorem built_conjunctionOf (children : List Expr) :
    built (conjunctionOf children) =
      unlessRefused (causeOf (conjunction children).constructed) (conjunction children) := by
  rw [constructed, conjunctionOf_eq_checked, built_checked]

theorem built_rowOf (items : List Expr) (columns : List (Option Attribute)) :
    built (rowOf items columns) =
      unlessRefused (causeOf (row items columns).constructed) (row items columns) := by
  rw [constructed, rowOf_eq_checked, built_checked]

theorem builtCall_eq (name : String) (arguments : List Expr) (distinct : Bool)
    (output : Option String) :
    builtCall name arguments distinct output =
      unlessRefused (causeOf (call name arguments distinct output).constructed)
        (call name arguments distinct output) := by
  have plain := built_checked (call name arguments false none) .emptyFunctionName
  rw [← callOf_eq_checked] at plain
  rw [← Option.or_none (o := causeOf _)]
  refine bind_unlessRefused plain ?_
  cases output <;> rfl

/-! ### Reading what has a shape -/

mutual

theorem decode_of_shaped {d : Document} {e : Expr} {order : List Expr}
    (h : Shaped .loose d e order) : decode d = unlessRefused (firstCause? order) e := by
  -- Each reading hands on the first cause among its parts, and only without one comes to the check
  -- of what is built from them.
  cases h with
  | literalObject found value bound => exact decode_of_represents (.literalObject found value bound)
  | literalArray value bound => exact decode_of_represents (.literalArray value bound)
  | raw sql => exact decode_of_represents (.raw sql)
  | column bound => exact decode_of_represents (.column bound)
  | arithmeticObject opFound unit leftFound first rightFound second =>
    have opTaken := field?_of_found opFound (Operator.decode_eq_ok_iff.mpr unit)
    have leftTaken := field?_unlessRefused leftFound (decode_of_shaped first)
    have rightTaken := field?_unlessRefused rightFound (decode_of_shaped second)
    rw [byName_arithmetic, firstCause?_concat, firstCause?_append, Option.or_assoc]
    refine (decode_tagged .arithmetic _).trans ?_
    exact bind_unlessRefused leftTaken
      (bind_of_ok opTaken (bind_unlessRefused rightTaken rfl))
  | arithmeticArray unit first second =>
    have opTaken := nextItem_of_read (Operator.decode_eq_ok_iff.mpr unit)
    have leftTaken := nextItem_unlessRefused (decode_of_shaped first)
    have rightTaken := nextItem_unlessRefused (decode_of_shaped second) []
    rw [firstCause?_concat, firstCause?_append, Option.or_assoc]
    refine (decode_tagged .arithmetic _).trans ?_
    exact bind_of_ok (opTaken _)
      (bind_unlessRefused (leftTaken _) (bind_unlessRefused rightTaken rfl))
  | callObject nameFound found each distinctForm outputForm =>
    have nameTaken := field?_of_found nameFound (readString_eq_ok_iff.mpr rfl)
    have taken := field?_unlessRefused found (readAll_of_shapedAll each)
    obtain ⟨distinct, distinctTaken, rfl⟩ :=
      (field?_fieldOr fun _ _ => readBool_eq_ok_iff).mp distinctForm
    obtain ⟨output, outputTaken, rfl⟩ :=
      (field?_fieldOr fun _ _ => readOutput_eq_ok_iff).mp outputForm
    rw [byName_call, firstCause?_concat, ← join_eq_getD]
    refine (decode_tagged .call _).trans ?_
    refine bind_of_ok outputTaken (bind_unlessRefused taken ?_)
    exact bind_of_ok distinctTaken (bind_of_ok nameTaken (builtCall_eq _ _ _ _))
  | callArray each rest =>
    have taken := nextItem_unlessRefused (readAll_of_shapedAll each)
    rw [firstCause?_concat]
    refine (decode_tagged .call _).trans ?_
    refine bind_of_ok rfl (bind_unlessRefused (taken _) ?_)
    cases rest with
    | none => exact builtCall_eq _ _ _ _
    | distinct b => exact builtCall_eq _ _ _ _
    | output b form =>
      have outputTaken := nextItem_of_read (readOutput_eq_ok_iff.mpr form) []
      exact bind_of_ok rfl (bind_of_ok outputTaken (builtCall_eq _ _ _ _))
  | conjunction each =>
    rw [firstCause?_concat]
    refine (decode_tagged .conjunction _).trans ?_
    exact bind_unlessRefused (readAll_of_shapedAll each) (built_conjunctionOf _)
  | negation below =>
    rw [firstCause?_concat]
    refine (decode_tagged .negation _).trans ?_
    exact bind_unlessRefused (decode_of_shaped below) rfl
  | row each targets =>
    have itemsTaken := nextItem_unlessRefused (readAll_of_shapedAll each)
    have columnsTaken := nextItem_of_read (readAll_eq_ok_iff.mpr
      ⟨_, rfl, targets.imp fun _ _ => readTarget_eq_ok_iff.mpr⟩) []
    rw [firstCause?_concat]
    refine (decode_tagged .row _).trans ?_
    exact bind_unlessRefused (itemsTaken _) (bind_of_ok columnsTaken (built_rowOf _ _))
  | namedObject found below outputFound =>
    have outputTaken := field?_of_found outputFound (readString_eq_ok_iff.mpr rfl)
    have innerTaken := field?_unlessRefused found (decode_of_shaped below)
    rw [byName_named, firstCause?_concat]
    refine (decode_tagged .named _).trans ?_
    exact bind_of_ok outputTaken (bind_unlessRefused innerTaken rfl)
  | namedArray below output =>
    have innerTaken := nextItem_unlessRefused (decode_of_shaped below)
    rw [firstCause?_concat]
    refine (decode_tagged .named _).trans ?_
    exact bind_unlessRefused (innerTaken _) rfl

theorem readAll_of_shapedAll {ds : List Document} {es order : List Expr}
    (h : ShapedAll .loose ds es order) :
    readAll decode (array ds) = unlessRefused (firstCause? order) es := by
  cases h with
  | nil => rfl
  | cons first rest =>
    rw [readAll, List.mapM_cons, firstCause?_append]
    refine bind_unlessRefused (decode_of_shaped first) ?_
    exact map_unlessRefused (_ :: ·) (readAll_of_shapedAll rest)

end

/-- A document is read as an expression exactly if it has its shape and the expression is well
built. -/
theorem decode_eq_ok_iff_shaped {d : Document} {e : Expr} :
    decode d = .ok e ↔ (∃ order, Shaped .loose d e order) ∧ e.WellBuilt := by
  constructor
  · intro read
    have represents := represents_of_decode read
    exact ⟨exists_shaped represents, wellBuilt_of_represents represents⟩
  · rintro ⟨⟨order, shape⟩, built⟩
    have kept : ∀ p ∈ order, causeOf p.constructed = none := by
      rw [order_of_shaped shape]
      exact fun p member => (causeOf_constructed p).mpr (keepsRule_of_mem_postorder built p member)
    rw [decode_of_shaped shape, firstCause?, List.findSome?_eq_none_iff.mpr kept]
    rfl

/-- A document that has the shape of an expression in which rules of construction are broken is
refused, with the cause that the constructor gives for the first expression that breaks its rule.
All that is read before it keeps the rules, its own parts among it. -/
theorem refused_at_first_violation {d : Document} {e : Expr} {order : List Expr}
    (shape : Shaped .loose d e order) (broken : ¬ e.WellBuilt) :
    ∃ before part after cause, order = before ++ part :: after ∧
      (∀ p ∈ before, p.KeepsRule) ∧ ¬ part.KeepsRule ∧ (∀ below ∈ part.parts, below.WellBuilt) ∧
      part.constructed = .error cause ∧ decode d = .error (.construction cause) := by
  obtain ⟨before, part, after, split, good, breaks, below⟩ := exists_first_violation broken
  rw [← order_of_shaped shape] at split
  obtain ⟨cause, refused⟩ : ∃ cause, causeOf part.constructed = some cause :=
    Option.ne_none_iff_exists'.mp fun none => breaks ((causeOf_constructed part).mp none)
  have earlier : ∀ p ∈ before, causeOf p.constructed = none :=
    fun p member => (causeOf_constructed p).mpr (good p member)
  have first : firstCause? order = some cause :=
    List.findSome?_eq_some_iff.mpr ⟨before, part, after, split, refused, earlier⟩
  have given := causeOf_eq_some_iff.mp refused
  refine ⟨before, part, after, cause, split, good, breaks, below, given, ?_⟩
  rw [decode_of_shaped shape, first]
  rfl

/-- A sum with fields out of order and one that does not count. Its right operand has a blank name;
its left operand is a row with a column too few, and an item of that is a conjunction of one. -/
def brokenSum : Document :=
  object [("Infix", object [("right", object [("Function", array [string " ", array []])]),
    ("operator", object [("Add", null)]), ("comment", object [("And", array [])]),
    ("left", object [("Values", array [
      array [object [("Literal", object [("value", string "Null")])],
        object [("And", array [object [("SqlLiteral", string "a")]])]],
      array [null]])])])]

theorem refused_at_first_violation_sum :
    let operand : Expr := row [literal .null none, conjunction [raw "a"]] [none]
    let tree : Expr := arithmetic .add operand (call " " [] false none)
    Shaped .loose brokenSum tree tree.postorder ∧ ¬ tree.WellBuilt ∧
    ∃ part ∈ tree.postorder, ¬ part.KeepsRule ∧ part.constructed = .error (.tooFewChildren 1) ∧
      decode brokenSum = .error (.construction (.tooFewChildren 1)) := by
  intro operand tree
  have broken : ¬ tree.WellBuilt := by decide
  obtain ⟨order, shape⟩ : ∃ order, Shaped .loose brokenSum tree order :=
    ⟨_, .arithmeticObject rfl .keyed rfl
      (.row (.cons (.literalObject rfl (.null .bare) (.missing rfl))
        (.cons (.conjunction (.cons (.raw "a") .nil)) .nil)) (.cons .none .nil))
      rfl (.callArray .nil .none)⟩
  rw [order_of_shaped shape] at shape
  obtain ⟨before, part, after, cause, split, -, breaks, -, refused, read⟩ :=
    refused_at_first_violation shape broken
  have inside : part ∈ tree.postorder := split ▸ List.mem_append_cons_self
  have found : decode brokenSum = .error (.construction (.tooFewChildren 1)) := rfl
  obtain rfl : cause = .tooFewChildren 1 := by
    rw [found] at read
    cases read
    rfl
  exact ⟨shape, broken, part, inside, breaks, refused, read⟩

end Expr

end SqlFragment
