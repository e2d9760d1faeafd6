import SqlFragment.Proofs.Lexical.Tokens
import SqlFragment.Proofs.Render.Refinement

/-!
# Rendered text is safe

The text of an expression without raw SQL, in which functions and outputs are named by words, is one
token, whatever its values, tables and columns are. Main statement: rendering such an expression
gives safe text or none (`rendered_isSafe`).
-/

namespace SqlFragment

def isWord (name : String) : Bool := name ≠ "" && name.toList.all isWordChar

mutual

/-- No part is raw SQL, and every name of a function or an output is a word. -/
def Expr.isTame : Expr → Bool
  | .literal _ _ => true
  | .raw _ => false
  | .column _ => true
  | .arithmetic _ l r => l.isTame && r.isTame
  | .call name args _ output => isWord name && output.all isWord && allTame args
  | .conjunction children => allTame children
  | .negation inner => inner.isTame
  | .row items _ => allTame items
  | .named inner output => inner.isTame && isWord output

def allTame : List Expr → Bool
  | [] => true
  | e :: rest => e.isTame && allTame rest

end

theorem inert_word {name : String} (word : isWord name) : name.toList.all isInert := by
  rw [isWord, Bool.and_eq_true] at word
  exact all_isInert (fun _ => isInert_of_isWordChar) word.2

theorem isTame_of_mem {es : List Expr} (tame : allTame es) {e : Expr} (member : e ∈ es) :
    e.isTame := by
  induction es with
  | nil => cases member
  | cons first rest ih =>
    rw [allTame, Bool.and_eq_true] at tame
    obtain rfl | member := List.mem_cons.mp member
    · exact tame.1
    · exact ih tame.2 member

/-! ### What stands around tokens -/

theorem glue_symbol (op : Operator) : Glue (" " ++ op.symbol ++ " ") := by
  have blank : Glue " " := glue_inert (c := ' ') rfl
  have symbol : ∀ depth, Moves (Calm depth) (Outside depth) op.symbol.toList := by
    rintro depth _ ⟨last, hyphen, slash, rfl⟩
    obtain ⟨c, single, one⟩ : ∃ c, op.symbol.toList = [c] ∧ c ∈ ['*', '/', '+', '-'] := by
      cases op
      · exact ⟨'*', rfl, by decide⟩
      · exact ⟨'/', rfl, by decide⟩
      · exact ⟨'+', rfl, by decide⟩
      · exact ⟨'-', rfl, by decide⟩
    refine ⟨⟨.outside c, depth⟩, ?_, c, rfl⟩
    simp only [List.mem_cons, List.not_mem_nil, or_false] at one
    rw [single]
    obtain rfl | rfl | rfl | rfl := one <;> simp [Scan.run, Scan.enter, hyphen, slash]
  intro depth
  rw [String.toList_append, String.toList_append]
  exact ((blank depth).append (symbol depth)).append (moves_inert_cons rfl depth)

theorem token_enclosed {opening : String} {word : List Char}
    (opens : opening.toList = word ++ ['(']) (inert : word.all isInert) {inside : String}
    (token : Token inside) : Token (opening ++ inside ++ ")") := by
  intro depth
  rw [String.toList_append, String.toList_append, opens]
  have entered := (moves_opening inert depth).append (token (depth + 1))
  exact (entered.append (moves_closing depth)).of_imp fun _ => Or.inl

theorem token_distinct (distinct : Bool) {arguments : String} (token : Token arguments) :
    Token ((if distinct then "DISTINCT " else "") ++ arguments) := by
  intro depth
  rw [String.toList_append]
  refine Moves.append (moves_inert ?_ depth) (token depth)
  cases distinct <;> rfl

theorem glue_comma : Glue ", " := glue_inert (c := ',') rfl

theorem glue_and : Glue " AND " := glue_inert (c := ' ') rfl

theorem glue_as : Glue " AS " := glue_inert (c := ' ') rfl

theorem token_named {text : String} (token : Token text) {output : String} (word : isWord output) :
    Token (text ++ " AS " ++ output) :=
  token_append_glue token glue_as (token_inert (inert_word word))

theorem token_literalText {d : Dialect} {known : KnownTypes} {v : Value} {target : Option Attribute}
    {text : String} (h : literalText? d known v target = some text) : Token text := by
  cases target with
  | none =>
    obtain rfl := Option.some.inj h
    exact token_literal d none v
  | some a =>
    obtain ⟨type, -, rfl⟩ := Option.map_eq_some_iff.mp h
    exact token_literal d type v

theorem token_outputClause {text : String} (token : Token text) {output : Option String}
    (words : output.all isWord) : Token (text ++ outputClause output) := by
  cases output with
  | none =>
    rw [outputClause, String.append_empty]
    exact token
  | some output =>
    rw [outputClause, ← String.append_assoc]
    exact token_named token words

theorem exists_of_mem_mapM {α β : Type} {f : α → Option β} {items : List α} {results : List β}
    (h : items.mapM f = some results) {result : β} (member : result ∈ results) :
    ∃ item ∈ items, f item = some result := by
  induction items generalizing results with
  | nil =>
    obtain rfl := Option.some.inj h
    cases member
  | cons item rest ih =>
    rw [List.mapM_cons] at h
    obtain ⟨first, found, h⟩ := Option.bind_eq_some_iff.mp h
    obtain ⟨others, each, h⟩ := Option.bind_eq_some_iff.mp h
    obtain rfl := Option.some.inj h
    obtain rfl | member := List.mem_cons.mp member
    · exact ⟨item, List.mem_cons_self, found⟩
    · obtain ⟨other, later, found⟩ := ih each member
      exact ⟨other, List.mem_cons_of_mem item later, found⟩

/-- Raw items are not tame, and of the other items only literals have a text. -/
theorem token_itemText {d : Dialect} {known : KnownTypes} {items : List Expr} (tame : allTame items)
    {columns : List (Option Attribute)} {texts : List String}
    (h : (items.zip columns).mapM (itemText? d known) = some texts) :
    ∀ text ∈ texts, Token text := by
  intro text member
  obtain ⟨⟨item, target⟩, place, composed⟩ := exists_of_mem_mapM h member
  have itemTame := isTame_of_mem tame (List.of_mem_zip place).1
  cases item with
  | literal v _ => exact token_literalText composed
  | raw sql => cases itemTame
  | _ => cases composed

/-! ### Expressions -/

mutual

theorem token_text? {d : Dialect} {known : KnownTypes} {e : Expr} (tame : e.isTame) {text : String}
    (h : e.text? d known = some text) : Token text := by
  cases e with
  | literal v target => exact token_literalText h
  | raw sql => cases tame
  | column a =>
    obtain rfl := Option.some.inj h
    exact token_qualified d a.table a.column
  | arithmetic op l r =>
    rw [Expr.isTame, Bool.and_eq_true] at tame
    rw [Expr.text?] at h
    obtain ⟨left, leftText, h⟩ := Option.bind_eq_some_iff.mp h
    obtain ⟨right, rightText, h⟩ := Option.bind_eq_some_iff.mp h
    obtain rfl := Option.some.inj h
    have token := token_append_glue (token_text? tame.1 leftText) (glue_symbol op)
      (token_text? tame.2 rightText)
    simp only [String.append_assoc] at token ⊢
    exact token
  | call name args distinct output =>
    rw [Expr.isTame, Bool.and_eq_true, Bool.and_eq_true] at tame
    obtain ⟨⟨word, outputs⟩, arguments⟩ := tame
    rw [Expr.text?] at h
    obtain ⟨texts, each, h⟩ := Option.bind_eq_some_iff.mp h
    obtain rfl := Option.some.inj h
    have listed := token_intercalate glue_comma (token_textOfEach? arguments each)
    have called := token_enclosed (String.toList_append : (name ++ "(").toList = _)
      (inert_word word) (token_distinct distinct listed)
    rw [← String.append_assoc] at called
    exact token_outputClause called outputs
  | conjunction children =>
    rw [Expr.isTame] at tame
    rw [Expr.text?] at h
    obtain ⟨texts, each, h⟩ := Option.bind_eq_some_iff.mp h
    obtain rfl := Option.some.inj h
    exact token_intercalate glue_and (token_textOfEach? tame each)
  | negation inner =>
    rw [Expr.isTame] at tame
    rw [Expr.text?] at h
    obtain ⟨text, composed, h⟩ := Option.bind_eq_some_iff.mp h
    obtain rfl := Option.some.inj h
    have opens : "NOT (".toList = "NOT ".toList ++ ['('] := rfl
    exact token_enclosed opens rfl (token_text? tame composed)
  | row items columns =>
    rw [Expr.isTame] at tame
    rw [Expr.text?] at h
    obtain ⟨texts, each, h⟩ := Option.bind_eq_some_iff.mp h
    obtain rfl := Option.some.inj h
    have listed := token_intercalate glue_comma (token_itemText tame each)
    have opens : "VALUES (".toList = "VALUES ".toList ++ ['('] := rfl
    exact token_enclosed opens rfl listed
  | named inner output =>
    rw [Expr.isTame, Bool.and_eq_true] at tame
    rw [Expr.text?] at h
    obtain ⟨text, composed, h⟩ := Option.bind_eq_some_iff.mp h
    obtain rfl := Option.some.inj h
    exact token_named (token_text? tame.1 composed) tame.2

theorem token_textOfEach? {d : Dialect} {known : KnownTypes} {es : List Expr} (tame : allTame es)
    {texts : List String} (h : textOfEach? d known es = some texts) :
    ∀ text ∈ texts, Token text := by
  cases es with
  | nil =>
    obtain rfl := Option.some.inj h
    intro text member
    cases member
  | cons e rest =>
    rw [allTame, Bool.and_eq_true] at tame
    rw [textOfEach?] at h
    obtain ⟨first, composed, h⟩ := Option.bind_eq_some_iff.mp h
    obtain ⟨others, each, h⟩ := Option.bind_eq_some_iff.mp h
    obtain rfl := Option.some.inj h
    intro text member
    obtain rfl | member := List.mem_cons.mp member
    · exact token_text? tame.1 composed
    · exact token_textOfEach? tame.2 each text member

end

/-! ### Rendering -/

theorem isSafe_of_run {σ : Type} {find : TypeLookup σ} {known : σ → KnownTypes}
    (keeps : Keeps find known) {d : Dialect} {e : Expr} (tame : e.isTame) {s after : σ}
    {text : String} (h : (e.render d find).run.run s = (.ok text, after)) : isSafe text := by
  rw [Expr.render] at h
  rcases run_write_cases keeps d e "" s with
    ⟨reached, composed, -, wrote, run⟩ | ⟨reached, x, -, -, run⟩
  · rw [run, String.empty_append] at h
    cases h
    exact (token_text? tame wrote).isSafe
  · rw [run] at h
    cases h

/-- Whatever its values, tables and columns are and whatever a cache finds out about them, an
expression without raw text and with words for names has safe text only. -/
theorem rendered_isSafe (d : Dialect) (e : Expr) (tame : e.isTame) :
    (∀ {σ : Type} (provider : Provider σ) (c after : SchemaCache σ) (text : String),
      (e.renderCached d provider).run.run c = (.ok text, after) → isSafe text) ∧
    ∀ text, e.renderPlain d = .ok text → isSafe text := by
  refine ⟨fun provider c after text h => isSafe_of_run (keeps_cached provider) tame h, ?_⟩
  intro text h
  exact isSafe_of_run keeps_none tame (Prod.ext h rfl)

theorem rendered_isSafe_quotes :
    let e := Expr.call "f" [.literal (.text "a'); --") none] true (some "x")
    e.isTame ∧ e.renderPlain .postgres = .ok "f(DISTINCT 'a''); --') AS x" ∧
      isSafe "f(DISTINCT 'a''); --') AS x" := by
  intro e
  have tame : e.isTame := rfl
  have rendered : e.renderPlain .postgres = .ok "f(DISTINCT 'a''); --') AS x" := by rfl
  exact ⟨tame, rendered, (rendered_isSafe .postgres e tame).2 _ rendered⟩

end SqlFragment
