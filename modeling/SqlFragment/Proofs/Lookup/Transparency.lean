import SqlFragment.Proofs.Lookup.Session

/-!
# A cache changes no answer

Lookups and renderings over a provider whose answer for a table never changes. The reference has no
cache and asks the provider anew each time that columns are needed. Main statement: a session with
a cache gives the answers of the reference, and each of them depends on its own query alone
(`cache_transparent`).
-/

namespace SqlFragment

variable {σ τ : Type}

abbrev ColumnLookup (σ : Type) := String → Effect σ LookupError ColumnMap

inductive Query where
  | columnsFor (table : String)
  | columnFor (a : Attribute)
  | render (d : Dialect) (e : Expr)

namespace ColumnLookup

def anew (provider : Provider σ) : ColumnLookup σ := fun table => do
  return ColumnMap.ofList (← provider table)

def column (columns : ColumnLookup σ) (a : Attribute) : Effect σ LookupError (Option Column) := do
  return (← columns a.table).get? a.column

def type (columns : ColumnLookup σ) : TypeLookup σ := fun a => do
  let column ← columns.column a
  return column.map (·.type)

end ColumnLookup

namespace Query

def operation : Query → Operation
  | columnsFor table => .columnsFor table
  | columnFor a => .columnFor a
  | render d e => .render d e

def ask (columns : ColumnLookup σ) (s : σ) : Query → Answer × σ
  | columnsFor table =>
    let run := (columns table).run.run s
    (.columns run.1, run.2)
  | columnFor a =>
    let run := (columns.column a).run.run s
    (.column run.1, run.2)
  | render d e =>
    let run := (e.render d columns.type).run.run s
    (.text run.1, run.2)

def answers (columns : ColumnLookup σ) : σ → List Query → List Answer
  | _, [] => []
  | s, query :: rest =>
    let (answer, after) := query.ask columns s
    answer :: answers columns after rest

theorem answers_cons (columns : ColumnLookup σ) (s : σ) (query : Query) (rest : List Query) :
    answers columns s (query :: rest) =
      (query.ask columns s).1 :: answers columns (query.ask columns s).2 rest := rfl

end Query

/-! ### Lookups that agree -/

section Agreement

variable {related : σ → τ → Prop} {columns : ColumnLookup σ} {other : ColumnLookup τ}
  (lookups : ∀ table, Effect.Agree related (columns table) (other table))

include lookups

theorem ColumnLookup.agree_column (a : Attribute) :
    Effect.Agree related (columns.column a) (other.column a) :=
  Effect.agree_bind (lookups a.table) fun _ => Effect.agree_pure _

theorem ColumnLookup.agree_type (a : Attribute) :
    Effect.Agree related (columns.type a) (other.type a) :=
  Effect.agree_bind (agree_column lookups a) fun _ => Effect.agree_pure _

theorem Query.agree_ask (query : Query) {s : σ} {t : τ} (start : related s t) :
    (query.ask columns s).1 = (query.ask other t).1 ∧
      related (query.ask columns s).2 (query.ask other t).2 := by
  cases query with
  | columnsFor table =>
    obtain ⟨same, after⟩ := lookups table s t start
    exact ⟨congrArg Answer.columns same, after⟩
  | columnFor a =>
    obtain ⟨same, after⟩ := ColumnLookup.agree_column lookups a s t start
    exact ⟨congrArg Answer.column same, after⟩
  | render d e =>
    obtain ⟨same, after⟩ := agree_write d (ColumnLookup.agree_type lookups) e "" s t start
    exact ⟨congrArg Answer.text same, after⟩

theorem Query.answers_of_agree (queries : List Query) {s : σ} {t : τ} (start : related s t) :
    Query.answers columns s queries = Query.answers other t queries := by
  induction queries generalizing s t with
  | nil => rfl
  | cons query rest ih =>
    obtain ⟨same, after⟩ := Query.agree_ask lookups query start
    rw [Query.answers_cons, Query.answers_cons, same, ih after]

end Agreement

theorem perform_operation (provider : Provider σ) (c : SchemaCache σ) (query : Query) :
    c.perform provider query.operation = query.ask (SchemaCache.columnsFor provider) c := by
  cases query <;> rfl

theorem answersTo_operation (provider : Provider σ) (c : SchemaCache σ) (queries : List Query) :
    c.answersTo provider (queries.map Query.operation) =
      Query.answers (SchemaCache.columnsFor provider) c queries := by
  induction queries generalizing c with
  | nil => rfl
  | cons query rest ih =>
    have turn : c.answersTo provider (query.operation :: rest.map Query.operation) =
        (c.perform provider query.operation).1 ::
          (c.perform provider query.operation).2.answersTo provider (rest.map Query.operation) := rfl
    rw [List.map_cons, turn, perform_operation, ih, Query.answers_cons]

/-! ### Providers that do not change their answers -/

namespace Provider

/-- The states that calls of the provider lead to. -/
inductive Reaches (provider : Provider σ) (source : σ) : σ → Prop where
  | start : Reaches provider source source
  | call {s : σ} (reached : Reaches provider source s) (table : String) :
      Reaches provider source ((provider table).run.run s).2

/-- From `source` on the provider answers for each table as `known` says, whatever it was asked
before. -/
def Steady (provider : Provider σ) (source : σ)
    (known : String → Except LookupError (List Column)) : Prop :=
  ∀ s, provider.Reaches source s → ∀ table, ((provider table).run.run s).1 = known table

/-- The provider that has the answers and no state. -/
def ofAnswers (known : String → Except LookupError (List Column)) : Provider Unit :=
  fun table s => (known table, s)

end Provider

section Steady

variable {provider : Provider σ} {source : σ}
  {known : String → Except LookupError (List Column)}

theorem run_anew_ofAnswers (table : String) :
    (ColumnLookup.anew (.ofAnswers known) table).run.run () =
      ((known table).map ColumnMap.ofList, ()) := by
  have asked : (Provider.ofAnswers known table).run.run () = (known table, ()) := rfl
  rw [ColumnLookup.anew, ← map_eq_pure_bind, Effect.run_map, asked]

/-- The provider is in a state that calls lead to, and what is held is what it answers. -/
structure SchemaCache.Mirrors (provider : Provider σ) (source : σ)
    (known : String → Except LookupError (List Column)) (c : SchemaCache σ) : Prop where
  reached : provider.Reaches source c.source
  held : ∀ table columns, c.held? table = some columns →
    (known table).map ColumnMap.ofList = .ok columns

theorem mirrors_fresh : (SchemaCache.fresh source).Mirrors provider source known where
  reached := .start
  held table columns held := by cases held

variable (steady : provider.Steady source known)

include steady

theorem agree_anew (table : String) :
    Effect.Agree (fun s _ => provider.Reaches source s)
      (ColumnLookup.anew provider table) (ColumnLookup.anew (.ofAnswers known) table) := by
  intro s _ reached
  have same := steady s reached table
  rw [run_anew_ofAnswers, ColumnLookup.anew, ← map_eq_pure_bind, Effect.run_map, same]
  exact ⟨rfl, reached.call table⟩

theorem agree_columnsFor_anew (table : String) :
    Effect.Agree (fun c _ => c.Mirrors provider source known)
      (SchemaCache.columnsFor provider table) (ColumnLookup.anew (.ofAnswers known) table) := by
  rintro c _ ⟨reached, holds⟩
  rw [run_anew_ofAnswers]
  have answer := steady c.source reached table
  have next := reached.call table
  rcases SchemaCache.columnsFor_cases provider table c with
    ⟨columns, held, run⟩ | ⟨listed, s, absent, asked, run⟩ | ⟨x, s, absent, asked, run⟩
  · rw [run, holds table columns held]
    exact ⟨rfl, reached, holds⟩
  · rw [asked] at answer next
    rw [run, ← answer]
    refine ⟨rfl, next, fun other columns held => ?_⟩
    rw [SchemaCache.held?_insert] at held
    split at held
    · next same =>
      obtain rfl := Option.some.inj held
      rw [same, ← answer]
      rfl
    · exact holds other columns held
  · rw [asked] at answer next
    rw [run, ← answer]
    refine ⟨rfl, next, fun other columns held => ?_⟩
    rw [SchemaCache.held?_erase] at held
    split at held
    · cases held
    · exact holds other columns held

theorem mirrors_after (ops : List Operation) :
    ((SchemaCache.fresh source).after provider ops).Mirrors provider source known := by
  have step (table : String) (c : SchemaCache σ) (mirrors : c.Mirrors provider source known) :=
    (agree_columnsFor_anew steady table c () mirrors).2
  exact SchemaCache.preserved_after step ops mirrors_fresh

end Steady

theorem answers_ofAnswers (known : String → Except LookupError (List Column))
    (queries : List Query) :
    Query.answers (.anew (.ofAnswers known)) () queries =
      queries.map fun query => (query.ask (.anew (.ofAnswers known)) ()).1 := by
  induction queries with
  | nil => rfl
  | cons query rest ih =>
    rw [Query.answers_cons, List.map_cons, ih]

/-- Over a provider whose answers depend on the table alone, a session with a new cache answers each
query as without a cache, where the provider is called for every lookup. Each answer is settled by
its query and the answers of the provider, whatever was asked before. -/
theorem cache_transparent (provider : Provider σ) (source : σ)
    (known : String → Except LookupError (List Column)) (steady : provider.Steady source known)
    (queries : List Query) :
    (SchemaCache.fresh source).answersTo provider (queries.map Query.operation) =
      Query.answers (.anew provider) source queries ∧
    (SchemaCache.fresh source).answersTo provider (queries.map Query.operation) =
      queries.map fun query => (query.ask (.anew (.ofAnswers known)) ()).1 := by
  have fresh : (SchemaCache.fresh source).Mirrors provider source known := mirrors_fresh
  have reached : provider.Reaches source source := .start
  have cached := Query.answers_of_agree (agree_columnsFor_anew steady) queries (t := ()) fresh
  have uncached := Query.answers_of_agree (agree_anew steady) queries (t := ()) reached
  rw [answersTo_operation, cached, uncached]
  exact ⟨rfl, answers_ofAnswers known queries⟩

/-- Lists the columns for the table `t`, knows no other table, and counts its calls. -/
def Provider.counting (columns : List Column) : Provider Nat := fun table calls =>
  (if table = "t" then .ok columns else .error (.unknownTable table), calls + 1)

theorem cache_transparent_counting :
    let columns : List Column := [⟨"a", .text, none, true, none⟩, ⟨"a", .integer, none, true, none⟩]
    let known : String → Except LookupError (List Column) := fun table =>
      if table = "t" then .ok columns else .error (.unknownTable table)
    let queries : List Query :=
      [.columnFor ⟨"u", "a"⟩, .render .sqlite (.literal (.text " 7 ") (some ⟨"t", "a"⟩)),
        .render .postgres (.conjunction [.literal .null (some ⟨"t", "b"⟩),
          .literal .null (some ⟨"u", "b"⟩)]), .columnsFor "t"]
    (Provider.counting columns).Steady 0 known ∧
    (SchemaCache.fresh 0).answersTo (.counting columns) (queries.map Query.operation) =
      Query.answers (.anew (.counting columns)) 0 queries ∧
    (SchemaCache.fresh 0).answersTo (.counting columns) (queries.map Query.operation) =
      queries.map fun query => (query.ask (.anew (.ofAnswers known)) ()).1 := by
  intro columns known queries
  have steady : (Provider.counting columns).Steady 0 known := fun _ _ _ => rfl
  exact ⟨steady, cache_transparent (.counting columns) 0 known steady queries⟩

end SqlFragment
