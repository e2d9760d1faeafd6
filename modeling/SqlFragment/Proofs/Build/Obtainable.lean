import SqlFragment.Proofs.Document.Grammar

/-!
# Obtainable expressions

What can be had at all: by the constructors, from one another and from documents, and by taking
expressions apart. That is exactly what is well built (`obtainable_iff_wellBuilt`), so the first two
children of a conjunction are always there, and a row pairs every item with a column.
-/

namespace SqlFragment.Expr

open Document

/-- What can be had by a finite number of steps. -/
inductive Obtainable : Expr → Prop where
  | literal (v : Value) (target : Option Attribute) : Obtainable (literal v target)
  | raw (sql : String) : Obtainable (raw sql)
  | column (a : Attribute) : Obtainable (column a)
  | arithmetic {left right : Expr} (op : Operator) (l : Obtainable left) (r : Obtainable right) :
      Obtainable (arithmetic op left right)
  | mul {left right : Expr} (l : Obtainable left) (r : Obtainable right) : Obtainable (left * right)
  | div {left right : Expr} (l : Obtainable left) (r : Obtainable right) : Obtainable (left / right)
  | add {left right : Expr} (l : Obtainable left) (r : Obtainable right) : Obtainable (left + right)
  | sub {left right : Expr} (l : Obtainable left) (r : Obtainable right) : Obtainable (left - right)
  | negation {e : Expr} (h : Obtainable e) : Obtainable (negation e)
  | named {e : Expr} (h : Obtainable e) (output : String) : Obtainable (named e output)
  | both {left right : Expr} (l : Obtainable left) (r : Obtainable right) :
      Obtainable (both left right)
  | conjunctionOf {children : List Expr} {e : Expr} (each : ∀ c ∈ children, Obtainable c)
      (made : conjunctionOf children = .ok e) : Obtainable e
  | rowOf {items : List Expr} {columns : List (Option Attribute)} {e : Expr}
      (each : ∀ i ∈ items, Obtainable i) (made : rowOf items columns = .ok e) : Obtainable e
  | unboundRow {items : List Expr} {e : Expr} (each : ∀ i ∈ items, Obtainable i)
      (made : unboundRow items = .ok e) : Obtainable e
  | callOf {name : String} {arguments : List Expr} {e : Expr}
      (each : ∀ a ∈ arguments, Obtainable a) (made : callOf name arguments = .ok e) : Obtainable e
  | withDistinct {e : Expr} (h : Obtainable e) (distinct : Bool) :
      Obtainable (e.withDistinct distinct)
  | withOutput {e : Expr} (h : Obtainable e) (output : String) : Obtainable (e.withOutput output)
  | count {e : Expr} (h : Obtainable e) (distinct : Bool) : Obtainable (e.count distinct)
  | sum {e : Expr} (h : Obtainable e) : Obtainable e.sum
  | maximum {e : Expr} (h : Obtainable e) : Obtainable e.maximum
  | minimum {e : Expr} (h : Obtainable e) : Obtainable e.minimum
  | average {e : Expr} (h : Obtainable e) : Obtainable e.average
  | decoded {d : Document} {e : Expr} (read : decode d = .ok e) : Obtainable e
  /-- The content of a kind can be read by itself. -/
  | content {kind : Kind} {d : Document} {e : Expr} (read : readContent decode kind d = .ok e) :
      Obtainable e
  | part {e p : Expr} (h : Obtainable e) (member : p ∈ e.parts) : Obtainable p

/-! ### Each way keeps the rules -/

theorem parts_withDistinct (e : Expr) (distinct : Bool) :
    (e.withDistinct distinct).parts = e.parts := by
  cases e <;> rfl

theorem parts_withOutput (e : Expr) (output : String) :
    (e.withOutput output).parts = e.parts := by
  cases e <;> rfl

theorem keepsRule_withDistinct {e : Expr} (distinct : Bool) (keeps : e.KeepsRule) :
    (e.withDistinct distinct).KeepsRule := by
  cases e <;> exact keeps

theorem keepsRule_withOutput {e : Expr} (output : String) (keeps : e.KeepsRule) :
    (e.withOutput output).KeepsRule := by
  cases e <;> exact keeps

theorem WellBuilt.of_parts_eq {e other : Expr} (h : e.WellBuilt) (keeps : other.KeepsRule)
    (same : other.parts = e.parts) : other.WellBuilt := by
  refine .intro keeps ?_
  rw [same]
  exact fun p member => h.part member

theorem wellBuilt_of_checked {e made : Expr} {cause : ConstructionError}
    (passed : e.checked cause = .ok made) (parts : ∀ p ∈ e.parts, p.WellBuilt) :
    made.WellBuilt := by
  obtain ⟨keeps, rfl⟩ := checked_eq_ok_iff.mp passed
  exact .intro keeps parts

theorem wellBuilt_arithmetic {left right : Expr} (op : Operator) (l : left.WellBuilt)
    (r : right.WellBuilt) : (arithmetic op left right).WellBuilt :=
  .of_two trivial rfl l r

theorem wellBuilt_call {name : String} {e : Expr} (distinct : Bool)
    (visible : Text.allBlank name = false) (h : e.WellBuilt) :
    (call name [e] distinct none).WellBuilt :=
  .of_part (allBlank_eq_false_iff.mp visible) rfl h

theorem Obtainable.wellBuilt {e : Expr} (h : Obtainable e) : e.WellBuilt := by
  induction h with
  | literal | raw | column => exact .of_parts_nil trivial rfl
  | arithmetic op _ _ l r => exact wellBuilt_arithmetic op l r
  | mul _ _ l r =>
    rw [mul_eq]
    exact wellBuilt_arithmetic .multiply l r
  | div _ _ l r =>
    rw [div_eq]
    exact wellBuilt_arithmetic .divide l r
  | add _ _ l r =>
    rw [add_eq]
    exact wellBuilt_arithmetic .add l r
  | sub _ _ l r =>
    rw [sub_eq]
    exact wellBuilt_arithmetic .subtract l r
  | negation _ below => exact .of_part trivial rfl below
  | named _ output below => exact .of_part trivial rfl below
  | both _ _ l r =>
    rw [both_eq]
    exact .of_two (Nat.le_refl 2) rfl l r
  | @conjunctionOf children e _ made each =>
    rw [conjunctionOf_eq_checked] at made
    exact wellBuilt_of_checked made each
  | @rowOf items columns e _ made each =>
    rw [rowOf_eq_checked] at made
    exact wellBuilt_of_checked made each
  | @unboundRow items e _ made each =>
    rw [unboundRow_eq_checked] at made
    exact wellBuilt_of_checked made each
  | @callOf name arguments e _ made each =>
    rw [callOf_eq_checked] at made
    exact wellBuilt_of_checked made each
  | @withDistinct e _ distinct built =>
    have keeps := keepsRule_withDistinct distinct built.here
    exact built.of_parts_eq keeps (parts_withDistinct e distinct)
  | @withOutput e _ output built =>
    have keeps := keepsRule_withOutput output built.here
    exact built.of_parts_eq keeps (parts_withOutput e output)
  | count _ distinct built =>
    rw [count_eq]
    exact wellBuilt_call distinct rfl built
  | sum _ built =>
    rw [sum_eq]
    exact wellBuilt_call false rfl built
  | maximum _ built =>
    rw [maximum_eq]
    exact wellBuilt_call false rfl built
  | minimum _ built =>
    rw [minimum_eq]
    exact wellBuilt_call false rfl built
  | average _ built =>
    rw [average_eq]
    exact wellBuilt_call false rfl built
  | decoded read => exact wellBuilt_of_represents (decode_eq_ok_iff.mp read)
  | @content kind d e read =>
    rw [← decode_tagged] at read
    exact wellBuilt_of_represents (decode_eq_ok_iff.mp read)
  | part _ member built => exact built.part member

theorem WellBuilt.obtainable {e : Expr} (h : e.WellBuilt) : Obtainable e := by
  unfold WellBuilt at h
  induction h with
  | @intro e keeps _ below =>
    -- each kind by the constructor that checks its rule
    cases e with
    | literal v target => exact .literal v target
    | raw sql => exact .raw sql
    | column a => exact .column a
    | arithmetic op left right =>
      exact .arithmetic op (below left List.mem_cons_self)
        (below right (List.mem_cons_of_mem left List.mem_cons_self))
    | call name arguments distinct output =>
      have plain := Obtainable.callOf below (callOf_eq_ok_iff.mpr ⟨keeps, rfl⟩)
      cases output with
      | none => exact plain.withDistinct distinct
      | some output => exact (plain.withDistinct distinct).withOutput output
    | conjunction children => exact .conjunctionOf below (conjunctionOf_eq_ok_iff.mpr ⟨keeps, rfl⟩)
    | negation inner => exact .negation (below inner List.mem_cons_self)
    | row items columns => exact .rowOf below (rowOf_eq_ok_iff.mpr ⟨keeps, rfl⟩)
    | named inner output => exact .named (below inner List.mem_cons_self) output

theorem obtainable_iff_wellBuilt {e : Expr} : Obtainable e ↔ e.WellBuilt :=
  ⟨Obtainable.wellBuilt, WellBuilt.obtainable⟩

/-! ### What the rules are for -/

theorem first_second_of_keepsRule {children : List Expr}
    (keeps : (conjunction children).KeepsRule) :
    ∃ left right rest, children = left :: right :: rest ∧
      (conjunction children).first? = some left ∧ (conjunction children).second? = some right := by
  have two : 2 ≤ children.length := keeps
  match children with
  | left :: right :: rest => exact ⟨left, right, rest, rfl, rfl, rfl⟩
  | [_] | [] => simp at two

theorem pairs_of_keepsRule {items : List Expr} {columns : List (Option Attribute)}
    (keeps : (row items columns).KeepsRule) :
    (row items columns).pairs.length = items.length ∧
    (row items columns).pairs.map Prod.fst = items ∧
    (row items columns).pairs.map Prod.snd = columns := by
  obtain ⟨-, same⟩ : items ≠ [] ∧ items.length = columns.length := keeps
  have fst : (row items columns).pairs.map Prod.fst = items :=
    List.map_fst_zip (Nat.le_of_eq same)
  have snd : (row items columns).pairs.map Prod.snd = columns :=
    List.map_snd_zip (Nat.le_of_eq same.symm)
  have length := congrArg List.length fst
  rw [List.length_map] at length
  exact ⟨length, fst, snd⟩

/-- What is obtainable keeps the rules at every depth, and everything that does is obtainable. A
constructor refuses what would break its rule, and nothing else; what it builds, and what is read
from a document, has the parts as they were given. -/
theorem obtainable_construction :
    (∀ e, Obtainable e ↔ Everywhere KeepsRule e) ∧
    (∀ children, Obtainable (conjunction children) →
      ∃ left right rest, children = left :: right :: rest ∧
        (conjunction children).first? = some left ∧
        (conjunction children).second? = some right) ∧
    (∀ items columns, Obtainable (row items columns) →
      (row items columns).pairs.length = items.length ∧
      (row items columns).pairs.map Prod.fst = items ∧
      (row items columns).pairs.map Prod.snd = columns) ∧
    (∀ children, conjunctionOf children =
      (conjunction children).checked (.tooFewChildren children.length)) ∧
    (∀ items columns, rowOf items columns = (row items columns).checked
      (if items = [] then .emptyRow else .lengthMismatch items.length columns.length)) ∧
    (∀ items, unboundRow items = (row items (items.map fun _ => none)).checked .emptyRow) ∧
    (∀ name arguments, callOf name arguments =
      (call name arguments false none).checked .emptyFunctionName) ∧
    (∀ e distinct, (withDistinct distinct e).parts = e.parts) ∧
    (∀ e output, (withOutput output e).parts = e.parts) ∧
    (∀ name arguments was distinct output,
      withDistinct distinct (call name arguments was output) =
        call name arguments distinct output) ∧
    (∀ name arguments distinct was output,
      withOutput output (call name arguments distinct was) =
        call name arguments distinct (some output)) ∧
    (∀ left right, both left right = conjunction [left, right]) ∧
    (∀ left right, left * right = arithmetic .multiply left right ∧
      left / right = arithmetic .divide left right ∧
      left + right = arithmetic .add left right ∧
      left - right = arithmetic .subtract left right) ∧
    (∀ e distinct, count e distinct = call "COUNT" [e] distinct none) ∧
    (∀ e, sum e = call "SUM" [e] false none ∧ maximum e = call "MAX" [e] false none ∧
      minimum e = call "MIN" [e] false none ∧ average e = call "AVG" [e] false none) ∧
    (∀ op left right, (arithmetic op left right).parts = [left, right]) ∧
    (∀ children, (conjunction children).parts = children) ∧
    (∀ items columns, (row items columns).parts = items) ∧
    (∀ name arguments distinct output, (call name arguments distinct output).parts = arguments) ∧
    (∀ kind d e, readContent decode kind d = .ok e ↔
      Represents .loose (object [(kind.tag, d)]) e) ∧
    (∀ d e, decode d = .ok e ↔ Represents .loose d e) := by
  refine ⟨fun e => obtainable_iff_wellBuilt, ?_, ?_, conjunctionOf_eq_checked, rowOf_eq_checked,
    unboundRow_eq_checked, callOf_eq_checked, parts_withDistinct, parts_withOutput,
    withDistinct_call, withOutput_call, both_eq, ?_, count_eq, ?_, fun _ _ _ => rfl, fun _ => rfl,
    fun _ _ => rfl, fun _ _ _ _ => rfl, ?_, fun _ _ => decode_eq_ok_iff⟩
  · intro children obtained
    exact first_second_of_keepsRule obtained.wellBuilt.here
  · intro items columns obtained
    exact pairs_of_keepsRule obtained.wellBuilt.here
  · intro left right
    exact ⟨mul_eq left right, div_eq left right, add_eq left right, sub_eq left right⟩
  · intro e
    exact ⟨sum_eq e, maximum_eq e, minimum_eq e, average_eq e⟩
  · intro kind d e
    rw [← decode_tagged]
    exact decode_eq_ok_iff

theorem obtainable_construction_both :
    Obtainable (both ((raw "a" + raw "b").count true) (raw "c")) ∧
    Obtainable (row [raw "a"] [none]) ∧
    both ((raw "a" + raw "b").count true) (raw "c") =
      conjunction [call "COUNT" [arithmetic .add (raw "a") (raw "b")] true none, raw "c"] ∧
    (∃ left right rest, [(raw "a" + raw "b").count true, raw "c"] = left :: right :: rest ∧
      (both ((raw "a" + raw "b").count true) (raw "c")).first? = some left ∧
      (both ((raw "a" + raw "b").count true) (raw "c")).second? = some right) ∧
    (row [raw "a"] [none]).pairs.map Prod.fst = [raw "a"] := by
  obtain ⟨wellBuilt, children, items, -, -, -, -, -, -, -, -, pair, operators, counted, -⟩ :=
    obtainable_construction
  have counts : Obtainable ((raw "a" + raw "b").count true) :=
    .count (.add (.raw "a") (.raw "b")) true
  have two : Obtainable (both ((raw "a" + raw "b").count true) (raw "c")) := counts.both (.raw "c")
  have single : Obtainable (row [raw "a"] [none]) := (wellBuilt _).mpr (by decide)
  refine ⟨two, single, ?_, children _ two, (items _ _ single).2.1⟩
  rw [pair, counted, (operators _ _).2.2.1]

end SqlFragment.Expr
