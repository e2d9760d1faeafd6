import SqlFragment.Document.Expr

/-!
# Reading by levels

How deep a reading may go does not matter once that is deep enough. Main statement: an expression is
read by reading one level, and the expressions below it likewise (`Expr.decode_eq`).
-/

namespace SqlFragment

open Document

namespace Document

theorem depth_le_depthAll {d : Document} {items : List Document} (h : d ∈ items) :
    d.depth ≤ depthAll items := by
  induction items with
  | nil => cases h
  | cons e rest ih =>
    rw [depthAll]
    rcases List.mem_cons.mp h with rfl | h
    · exact Nat.le_max_left ..
    · exact Nat.le_trans (ih h) (Nat.le_max_right ..)

theorem depth_le_depthFields {name : String} {d : Document} {fields : List (String × Document)}
    (h : fields.lookup name = some d) : d.depth ≤ depthFields fields := by
  induction fields with
  | nil => cases h
  | cons f rest ih =>
    rw [List.lookup_cons] at h
    rw [depthFields]
    split at h
    · obtain rfl := Option.some.inj h
      exact Nat.le_max_left ..
    · exact Nat.le_trans (ih h) (Nat.le_max_right ..)

variable {α : Type} {f g : Reader α}

theorem mapM_congr {items : List Document} (h : ∀ d ∈ items, f d = g d) :
    items.mapM f = items.mapM g := by
  induction items with
  | nil => rfl
  | cons d rest ih =>
    rw [List.mapM_cons, List.mapM_cons, h d List.mem_cons_self,
      ih fun e member => h e (List.mem_cons_of_mem d member)]

theorem readAll_congr {d : Document} (h : ∀ c, c.depth < d.depth → f c = g c) :
    readAll f d = readAll g d := by
  cases d with
  | array items =>
    exact mapM_congr fun c member => h c (by
      have le := depth_le_depthAll member
      rw [depth]
      omega)
  | _ => rfl

theorem field?_congr {fields : List (String × Document)} {name : String}
    (h : ∀ c, fields.lookup name = some c → f c = g c) :
    field? fields name f = field? fields name g := by
  unfold field?
  split
  · rfl
  · next found => rw [h _ found]

theorem nextItem_congr {items : List Document} (h : ∀ d ∈ items, f d = g d) :
    nextItem f items = nextItem g items := by
  cases items with
  | nil => rfl
  | cons d rest => simp only [nextItem, h d List.mem_cons_self]

theorem rest_subset {items rest : List Document} {a : α} {read : Reader α}
    (h : nextItem read items = .ok (a, rest)) : ∀ d ∈ rest, d ∈ items := by
  cases items with
  | nil => cases h
  | cons d others =>
    rw [nextItem] at h
    cases same : read d with
    | error e => rw [same] at h; cases h
    | ok b =>
      rw [same] at h
      cases h
      exact fun e member => List.mem_cons_of_mem d member

end Document

theorem bind_congr_of_ok {ε α β : Type} {x : Except ε α} {f g : α → Except ε β}
    (h : ∀ a, x = .ok a → f a = g a) : (x >>= f) = (x >>= g) := by
  cases x with
  | error e => rfl
  | ok a => exact h a rfl

namespace Expr

variable {f g : Reader Expr}

theorem arithmeticOfFields_congr {fields : List (String × Document)}
    (h : ∀ name c, fields.lookup name = some c → f c = g c) :
    arithmeticOfFields f fields = arithmeticOfFields g fields := by
  simp only [arithmeticOfFields, field?_congr (h _)]

theorem arithmeticOfItems_congr {items : List Document} (h : ∀ d ∈ items, f d = g d) :
    arithmeticOfItems f items = arithmeticOfItems g items := by
  refine bind_congr_of_ok fun (op, first) took => ?_
  have below := rest_subset took
  simp only
  rw [nextItem_congr fun d member => h d (below d member)]
  refine bind_congr_of_ok fun (left, second) took => ?_
  have under := rest_subset took
  simp only
  rw [nextItem_congr fun d member => h d (below d (under d member))]

theorem callOfFields_congr {fields : List (String × Document)}
    (h : ∀ name c, fields.lookup name = some c → readAll f c = readAll g c) :
    callOfFields f fields = callOfFields g fields := by
  simp only [callOfFields, field?_congr (h _)]

theorem callOfItems_congr {items : List Document}
    (h : ∀ d ∈ items, readAll f d = readAll g d) : callOfItems f items = callOfItems g items := by
  refine bind_congr_of_ok fun (name, first) took => ?_
  have below := rest_subset took
  simp only
  rw [nextItem_congr fun d member => h d (below d member)]

theorem rowOfItems_congr {items : List Document}
    (h : ∀ d ∈ items, readAll f d = readAll g d) : rowOfItems f items = rowOfItems g items := by
  unfold rowOfItems
  rw [nextItem_congr h]

theorem namedOfFields_congr {fields : List (String × Document)}
    (h : ∀ name c, fields.lookup name = some c → f c = g c) :
    namedOfFields f fields = namedOfFields g fields := by
  simp only [namedOfFields, field?_congr (h _)]

theorem namedOfItems_congr {items : List Document} (h : ∀ d ∈ items, f d = g d) :
    namedOfItems f items = namedOfItems g items := by
  unfold namedOfItems
  rw [nextItem_congr h]

theorem readContent_congr {d : Document} (h : ∀ c, c.depth ≤ d.depth → f c = g c) (kind : Kind) :
    readContent f kind d = readContent g kind d := by
  have inArray : ∀ {items}, d = array items → ∀ c ∈ items, c.depth < d.depth := by
    rintro items rfl c member
    have le := depth_le_depthAll member
    rw [depth]
    omega
  have inObject : ∀ {fields}, d = object fields →
      ∀ name c, fields.lookup name = some c → c.depth < d.depth := by
    rintro fields rfl name c found
    have le := depth_le_depthFields found
    rw [depth]
    omega
  have all : ∀ c, c.depth ≤ d.depth → readAll f c = readAll g c :=
    fun c le => readAll_congr fun e lt => h e (by omega)
  cases kind with
  | literal | raw | column => rfl
  | arithmetic =>
    cases d with
    | object fields =>
      exact arithmeticOfFields_congr fun n c found => h c (Nat.le_of_lt (inObject rfl n c found))
    | array items =>
      exact arithmeticOfItems_congr fun c member => h c (Nat.le_of_lt (inArray rfl c member))
    | _ => rfl
  | call =>
    cases d with
    | object fields =>
      exact callOfFields_congr fun n c found => all c (Nat.le_of_lt (inObject rfl n c found))
    | array items =>
      exact callOfItems_congr fun c member => all c (Nat.le_of_lt (inArray rfl c member))
    | _ => rfl
  | conjunction => simp only [readContent, readConjunction, all d (Nat.le_refl _)]
  | negation => simp only [readContent, h d (Nat.le_refl _)]
  | row =>
    cases d with
    | array items =>
      exact rowOfItems_congr fun c member => all c (Nat.le_of_lt (inArray rfl c member))
    | _ => rfl
  | named =>
    cases d with
    | object fields =>
      exact namedOfFields_congr fun n c found => h c (Nat.le_of_lt (inObject rfl n c found))
    | array items =>
      exact namedOfItems_congr fun c member => h c (Nat.le_of_lt (inArray rfl c member))
    | _ => rfl

theorem depth_content {d content : Document} {name : String}
    (h : readTagged d = .ok (name, some content)) : content.depth < d.depth := by
  unfold readTagged at h
  split at h
  · cases h
  · cases h
    simp [depth, depthFields]
  · cases h
  · cases h

theorem readLevel_congr {d : Document} (h : ∀ c, c.depth < d.depth → f c = g c) :
    readLevel f d = readLevel g d := by
  refine bind_congr_of_ok fun (name, content) tagged => ?_
  refine bind_congr_of_ok fun kind _ => ?_
  cases content with
  | none => rfl
  | some content =>
    have lt := depth_content tagged
    exact readContent_congr (fun c le => h c (by omega)) kind

theorem depth_pos (d : Document) : 0 < d.depth := by
  cases d <;> simp [depth]

/-- A reading that goes deep enough does not depend on how deep it may go. -/
theorem readWithin_eq {n : Nat} {d : Document} (h : d.depth ≤ n) : readWithin n d = decode d := by
  have enough : ∀ (n m : Nat) (d : Document), d.depth ≤ n → d.depth ≤ m →
      readWithin n d = readWithin m d := by
    intro n
    induction n with
    | zero => intro m d h; exact absurd (depth_pos d) (by omega)
    | succ n ih =>
      intro m d hn hm
      cases m with
      | zero => exact absurd (depth_pos d) (by omega)
      | succ m => exact readLevel_congr fun c lt => ih m c (by omega) (by omega)
  exact enough n d.depth d h (Nat.le_refl _)

theorem decode_eq (d : Document) : decode d = readLevel decode d := by
  have pos := depth_pos d
  obtain ⟨n, same⟩ : ∃ n, d.depth = n + 1 := ⟨d.depth - 1, by omega⟩
  rw [← readWithin_eq (Nat.le_of_eq same)]
  exact readLevel_congr fun c lt => readWithin_eq (by omega)

end Expr

end SqlFragment
