import SqlFragment.Proofs.Lookup.Failure

namespace SqlFragment

/-- An expression with a hole, where another expression can stand. -/
inductive Expr.Context where
  | hole
  | leftOperand (op : Operator) (inner : Context) (right : Expr)
  | rightOperand (op : Operator) (left : Expr) (inner : Context)
  | argument (name : String) (before : List Expr) (inner : Context) (after : List Expr)
      (distinct : Bool) (output : Option String)
  | child (before : List Expr) (inner : Context) (after : List Expr)
  | negated (inner : Context)
  | named (inner : Context) (output : String)

def Expr.Context.fill : Context → Expr → Expr
  | hole, e => e
  | leftOperand op inner right, e => .arithmetic op (inner.fill e) right
  | rightOperand op left inner, e => .arithmetic op left (inner.fill e)
  | argument name before inner after distinct output, e =>
    .call name (before ++ inner.fill e :: after) distinct output
  | child before inner after, e => .conjunction (before ++ inner.fill e :: after)
  | negated inner, e => .negation (inner.fill e)
  | named inner output, e => .named (inner.fill e) output

/-! ### The pieces around a hole -/

theorem Piece.exists_around (separator : String) (before after : List (List Piece)) :
    ∃ front back, ∀ list : List Piece,
      separated separator (before ++ list :: after) = front ++ (list ++ back) := by
  cases before with
  | nil => exact ⟨[], _, fun _ => rfl⟩
  | cons first rest =>
    refine ⟨first ++ (rest.flatMap (fixed separator :: ·) ++ [fixed separator]),
      after.flatMap (fixed separator :: ·), fun list => ?_⟩
    simp only [separated, List.cons_append, List.flatMap_append, List.flatMap_cons,
      List.append_assoc, List.nil_append]

theorem exists_around_part (separator : String) (before after : List Expr) :
    ∃ front back, ∀ e : Expr, Piece.separated separator (piecesOfEach (before ++ e :: after)) =
      front ++ (e.pieces ++ back) := by
  obtain ⟨front, back, around⟩ :=
    Piece.exists_around separator (before.map Expr.pieces) (after.map Expr.pieces)
  refine ⟨front, back, fun e => ?_⟩
  rw [piecesOfEach_eq_map, List.map_append, List.map_cons, around]

theorem Expr.Context.exists_pieces_fill (C : Context) :
    ∃ front back, ∀ e, (C.fill e).pieces = front ++ (e.pieces ++ back) := by
  induction C with
  | hole => exact ⟨[], [], fun e => (List.append_nil _).symm⟩
  | leftOperand op inner right ih =>
    obtain ⟨front, back, around⟩ := ih
    refine ⟨front, back ++ .fixed (" " ++ op.symbol ++ " ") :: right.pieces, fun e => ?_⟩
    simp only [fill, pieces, around, List.append_assoc]
  | rightOperand op left inner ih =>
    obtain ⟨front, back, around⟩ := ih
    refine ⟨left.pieces ++ .fixed (" " ++ op.symbol ++ " ") :: front, back, fun e => ?_⟩
    simp only [fill, pieces, around, List.append_assoc, List.cons_append]
  | argument name before inner after distinct output ih =>
    obtain ⟨front, back, around⟩ := ih
    obtain ⟨first, last, among⟩ := exists_around_part ", " before after
    refine ⟨.fixed (name ++ "(" ++ (if distinct then "DISTINCT " else "")) :: (first ++ front),
      back ++ (last ++ [.fixed (")" ++ outputClause output)]), fun e => ?_⟩
    simp only [fill, pieces, among, around, List.append_assoc, List.cons_append]
  | child before inner after ih =>
    obtain ⟨front, back, around⟩ := ih
    obtain ⟨first, last, among⟩ := exists_around_part " AND " before after
    refine ⟨first ++ front, back ++ last, fun e => ?_⟩
    simp only [fill, pieces, among, around, List.append_assoc]
  | negated inner ih =>
    obtain ⟨front, back, around⟩ := ih
    refine ⟨.fixed "NOT (" :: front, back ++ [.fixed ")"], fun e => ?_⟩
    simp only [fill, pieces, around, List.append_assoc, List.cons_append]
  | named inner output ih =>
    obtain ⟨front, back, around⟩ := ih
    refine ⟨front, back ++ [.fixed (" AS " ++ output)], fun e => ?_⟩
    simp only [fill, pieces, around, List.append_assoc]

theorem exists_pieces_set {items : List Expr} {columns : List (Option Attribute)} {i : Nat}
    {item : Expr} {target : Option Attribute} (here : items[i]? = some item)
    (column : columns[i]? = some target) :
    ∃ front back, ∀ e, (Expr.row (items.set i e) columns).pieces =
      front ++ ([Piece.ofItem (e, target)] ++ back) := by
  obtain ⟨inItems, -⟩ := List.getElem?_eq_some_iff.mp here
  obtain ⟨inColumns, found⟩ := List.getElem?_eq_some_iff.mp column
  have split (e : Expr) : (items.set i e).zip columns =
      (items.take i).zip (columns.take i) ++
        (e, target) :: (items.drop (i + 1)).zip (columns.drop (i + 1)) := by
    have cut : columns = columns.take i ++ target :: columns.drop (i + 1) := by
      rw [← found, List.getElem_cons_drop, List.take_append_drop]
    have same : (items.take i).length = (columns.take i).length := by
      rw [List.length_take, List.length_take]
      omega
    conv_lhs => rw [List.set_eq_take_append_cons_drop, if_pos inItems, cut]
    rw [List.zip_append same, List.zip_cons_cons]
  obtain ⟨front, back, around⟩ := Piece.exists_around ", "
    (((items.take i).zip (columns.take i)).map fun item => [Piece.ofItem item])
    (((items.drop (i + 1)).zip (columns.drop (i + 1))).map fun item => [Piece.ofItem item])
  refine ⟨.fixed "VALUES (" :: front, back ++ [.fixed ")"], fun e => ?_⟩
  rw [Expr.pieces, split, List.map_append, List.map_cons, around]
  simp only [List.append_assoc, List.cons_append]

/-! ### Writing one piece or another -/

section Writing

variable {σ : Type} {d : Dialect} {find : TypeLookup σ}

theorem render_congr_between {e f : Expr} {front back pieces others : List Piece}
    (first : e.pieces = front ++ (pieces ++ back)) (second : f.pieces = front ++ (others ++ back))
    (same : ∀ text,
      pieces.foldlM (Piece.write d find) text = others.foldlM (Piece.write d find) text) :
    e.render d find = f.render d find := by
  rw [Expr.render, Expr.render, write_eq_foldlM, write_eq_foldlM, first, second]
  simp only [List.foldlM_append, same]

theorem Piece.write_behind (text : String) (piece : Piece) :
    piece.write d find text = (text ++ ·) <$> piece.write d find "" := by
  cases piece <;> simp [write]

theorem Piece.foldlM_behind (pieces : List Piece) (text : String) :
    pieces.foldlM (write d find) text = (text ++ ·) <$> pieces.foldlM (write d find) "" := by
  induction pieces generalizing text with
  | nil => simp
  | cons piece rest ih =>
    rw [List.foldlM_cons, List.foldlM_cons, write_behind, bind_map_left, map_bind]
    congr 1
    funext t
    rw [ih (text ++ t), ih t]
    simp [String.append_assoc]

theorem write_behind (e : Expr) (text : String) :
    e.write d find text = (text ++ ·) <$> e.render d find := by
  rw [Expr.render, write_eq_foldlM, write_eq_foldlM, Piece.foldlM_behind]

/-- What is rendered alike by itself is rendered alike in any place. -/
theorem render_fill_congr {e f : Expr} (C : Expr.Context)
    (same : e.render d find = f.render d find) :
    (C.fill e).render d find = (C.fill f).render d find := by
  obtain ⟨front, back, around⟩ := C.exists_pieces_fill
  have pieces : ∀ text, e.pieces.foldlM (Piece.write d find) text =
      f.pieces.foldlM (Piece.write d find) text := by
    intro text
    rw [← write_eq_foldlM, ← write_eq_foldlM, write_behind, same, ← write_behind]
  exact render_congr_between (around e) (around f) pieces

theorem render_raw (q : String) : (Expr.raw q).render d find = pure q := by
  rw [Expr.render, Expr.write, String.empty_append]

theorem render_set_raw {items : List Expr} {columns : List (Option Attribute)} {i : Nat} {v : Value}
    {own target : Option Attribute} {q : String} (here : items[i]? = some (.literal v own))
    (column : columns[i]? = some target) (quoted : quoteFor d find v target = pure q) :
    (Expr.row items columns).render d find =
      (Expr.row (items.set i (.raw q)) columns).render d find := by
  obtain ⟨front, back, around⟩ := exists_pieces_set here column
  have piece : ∀ text, [Piece.ofItem (.literal v own, target)].foldlM (Piece.write d find) text =
      [Piece.ofItem (.raw q, target)].foldlM (Piece.write d find) text := by
    intro text
    simp [Piece.ofItem, Piece.write, quoted]
  have kept : items.set i (.literal v own) = items := by
    obtain ⟨_, found⟩ := List.getElem?_eq_some_iff.mp here
    rw [← found, List.set_getElem_self]
  have before := around (.literal v own)
  rw [kept] at before
  exact render_congr_between before (around (.raw q)) piece

end Writing

/-! ### Lookups without a state -/

theorem eq_pure_of_run {ε α : Type} {m : Effect Unit ε α} {a : α}
    (done : (m.run.run ()).1 = .ok a) : m = pure a :=
  ExceptT.ext (StateT.ext fun _ => Prod.ext done rfl)

/-- The rendering with a cache on which the operations have been performed before. -/
def Expr.renderedAfter {σ : Type} (provider : Provider σ) (source : σ) (d : Dialect)
    (ops : List Operation) (e : Expr) : Except RenderError String :=
  ((e.renderCached d provider).run.run ((SchemaCache.fresh source).after provider ops)).1

/-- The text of a value for a column, with a cache on which the operations have been performed
before. -/
def Value.quotedAfter {σ : Type} (provider : Provider σ) (source : σ) (d : Dialect)
    (ops : List Operation) (v : Value) (target : Option Attribute) : Except RenderError String :=
  ((quoteFor d (.cached provider) v target).run.run
    ((SchemaCache.fresh source).after provider ops)).1

section Steady

variable {σ : Type} {provider : Provider σ} {source : σ}
  {known : String → Except LookupError (List Column)} (steady : provider.Steady source known)
  (d : Dialect) (ops : List Operation)

include steady

/-- However much the cache has been used, it finds what the provider answers. -/
theorem renderedAfter_eq (e : Expr) :
    e.renderedAfter provider source d ops =
      ((e.render d (ColumnLookup.anew (.ofAnswers known)).type).run.run ()).1 := by
  have agree := agree_write d (ColumnLookup.agree_type (agree_columnsFor_anew steady)) e ""
  exact (agree _ () (mirrors_after steady ops)).1

theorem quotedAfter_eq (v : Value) (target : Option Attribute) :
    v.quotedAfter provider source d ops target =
      ((quoteFor d (ColumnLookup.anew (.ofAnswers known)).type v target).run.run ()).1 := by
  have lookups (a : Attribute) (_ : a ∈ target) :=
    ColumnLookup.agree_type (agree_columnsFor_anew steady) a
  exact (agree_quoteFor d v lookups _ () (mirrors_after steady ops)).1

end Steady

/-- An expression that is rendered as `q` may be replaced by `q` wherever it stands: the whole is
rendered with the same text or the same error. So may a literal in a row, by its value as quoted for
the column at its place. Without a schema that is its text without a column; with a cache it does
not matter how the cache was used before each of the renderings. -/
theorem rendered_text_replaces_expression {σ : Type} (provider : Provider σ) (source : σ)
    (known : String → Except LookupError (List Column)) (steady : provider.Steady source known)
    (d : Dialect) (C : Expr.Context) :
    (∀ e q, e.renderPlain d = .ok q → (C.fill e).renderPlain d = (C.fill (.raw q)).renderPlain d) ∧
    (∀ e q ops first second, e.renderedAfter provider source d ops = .ok q →
      (C.fill e).renderedAfter provider source d first =
        (C.fill (.raw q)).renderedAfter provider source d second) ∧
    ∀ items columns i v own target, items[i]? = some (.literal v own) → columns[i]? = some target →
      (C.fill (.row items columns)).renderPlain d =
        (C.fill (.row (items.set i (.raw (d.literal none v))) columns)).renderPlain d ∧
      ∀ q ops first second, v.quotedAfter provider source d ops target = .ok q →
        (C.fill (.row items columns)).renderedAfter provider source d first =
          (C.fill (.row (items.set i (.raw q)) columns)).renderedAfter provider source d
            second := by
  refine ⟨fun e q done => ?_, fun e q ops first second done => ?_, ?_⟩
  · have same := render_fill_congr C ((eq_pure_of_run done).trans (render_raw q).symm)
    rw [Expr.renderPlain, Expr.renderPlain, same]
  · rw [renderedAfter_eq steady] at done
    have same := render_fill_congr C ((eq_pure_of_run done).trans (render_raw q).symm)
    rw [renderedAfter_eq steady, renderedAfter_eq steady, same]
  · intro items columns i v own target here column
    refine ⟨?_, fun q ops first second quoted => ?_⟩
    · have untyped : quoteFor d .none v target = pure (d.literal none v) := by
        cases target <;> rfl
      have same := render_fill_congr C (render_set_raw here column untyped)
      rw [Expr.renderPlain, Expr.renderPlain, same]
    · rw [quotedAfter_eq steady] at quoted
      have same := render_fill_congr C (render_set_raw here column (eq_pure_of_run quoted))
      rw [renderedAfter_eq steady, renderedAfter_eq steady, same]

/-- A subtree with a lookup of its own between siblings of which the last one fails. -/
theorem rendered_text_replaces_expression_between :
    let columns : List Column := [⟨"a", .integer, none, true, none⟩, ⟨"b", .text, none, true, none⟩]
    let known : String → Except LookupError (List Column) := fun table =>
      if table = "t" then .ok columns else .error (.unknownTable table)
    let bound (table column : String) : Expr := .literal (.text " 7 ") (some ⟨table, column⟩)
    let C : Expr.Context :=
      .child [bound "t" "b"] (.negated (.leftOperand .add .hole (bound "t" "a"))) [bound "u" "a"]
    let e : Expr := .call "COALESCE" [bound "t" "a", .column ⟨"t", "order"⟩] false none
    let rendered : List Operation → Expr → Except RenderError String :=
      Expr.renderedAfter (.counting columns) 0 .sqlite
    let items : List Expr := [.raw "DEFAULT", .literal (.integer 7) none]
    let targets : List (Option Attribute) := [none, some ⟨"t", "b"⟩]
    (Provider.counting columns).Steady 0 known ∧
    rendered [.columnFor ⟨"u", "a"⟩] e = .ok "COALESCE(7, t.\"order\")" ∧
    rendered [] (C.fill e) =
      rendered [.columnsFor "t"] (C.fill (.raw "COALESCE(7, t.\"order\")")) ∧
    items[1]? = some (.literal (.integer 7) none) ∧ targets[1]? = some (some ⟨"t", "b"⟩) ∧
    Value.quotedAfter (.counting columns) 0 .sqlite [] (.integer 7) (some ⟨"t", "b"⟩) = .ok "'7'" ∧
    rendered [] (C.fill (.row items targets)) =
      rendered [] (C.fill (.row (items.set 1 (.raw "'7'")) targets)) := by
  intro columns known bound C e rendered items targets
  have steady : (Provider.counting columns).Steady 0 known := fun _ _ _ => rfl
  have done : rendered [.columnFor ⟨"u", "a"⟩] e = .ok "COALESCE(7, t.\"order\")" := by rfl
  have quoted : Value.quotedAfter (.counting columns) 0 .sqlite [] (.integer 7) (some ⟨"t", "b"⟩) =
      .ok "'7'" := by rfl
  obtain ⟨-, subtree, item⟩ :=
    rendered_text_replaces_expression (.counting columns) 0 known steady .sqlite C
  refine ⟨steady, done, subtree e _ _ [] [.columnsFor "t"] done, rfl, rfl, quoted, ?_⟩
  exact (item items targets 1 (.integer 7) none (some ⟨"t", "b"⟩) rfl rfl).2 "'7'" [] [] [] quoted

end SqlFragment
