import SqlFragment.Proofs.Lookup.Footprint

/-!
# Sessions with a cache

Any sequence of operations on one cache, over a provider that may answer differently from call to
call. A turn of a session is an operation with the calls of the provider that it made and the answer
that it gave. Main statement: every answer is settled by the calls made so far, and once the
provider has listed a table it is never asked for it again (`session_remembers`).
-/

namespace SqlFragment

variable {σ : Type}

inductive Operation where
  | columnsFor (table : String)
  | columnFor (a : Attribute)
  | isCached (table : String)
  | cachedTables
  | render (d : Dialect) (e : Expr)

inductive Answer where
  | columns (result : Except LookupError ColumnMap)
  | column (result : Except LookupError (Option Column))
  | cached (yes : Bool)
  | count (n : Nat)
  | text (result : Except RenderError String)

namespace SchemaCache

def perform (provider : Provider σ) (c : SchemaCache σ) : Operation → Answer × SchemaCache σ
  | .columnsFor table =>
    let run := (columnsFor provider table).run.run c
    (.columns run.1, run.2)
  | .columnFor a =>
    let run := (columnFor provider a).run.run c
    (.column run.1, run.2)
  | .isCached table => (.cached (c.isCached table), c)
  | .cachedTables => (.count c.cachedTables, c)
  | .render d e =>
    let run := (e.renderCached d provider).run.run c
    (.text run.1, run.2)

def answersTo (provider : Provider σ) : SchemaCache σ → List Operation → List Answer
  | _, [] => []
  | c, op :: rest =>
    let (answer, after) := c.perform provider op
    answer :: answersTo provider after rest

end SchemaCache

def SchemaCache.after (provider : Provider σ) (c : SchemaCache σ) (ops : List Operation) :
    SchemaCache σ :=
  ops.foldl (fun c op => (c.perform provider op).2) c

structure Turn where
  operation : Operation
  calls : List Call
  answer : Answer

def session (provider : Provider σ) : SchemaCache (σ × List Call) → List Operation → List Turn
  | _, [] => []
  | c, op :: rest =>
    let (answer, after) := c.perform provider.recorded op
    ⟨op, after.source.2.drop c.source.2.length, answer⟩ :: session provider after rest

def Session.calls (turns : List Turn) : List Call := turns.flatMap (·.calls)

namespace Operation

/-- The tables that an operation looks up, as long as no lookup fails. -/
def tables : Operation → List String
  | columnsFor table => [table]
  | columnFor a => [a.table]
  | isCached _ => []
  | cachedTables => []
  | render _ e => e.footprint

/-- What the provider has listed says of types. -/
def listedTypes (calls : List Call) : KnownTypes := fun a =>
  (Call.listed? calls a.table).map fun columns =>
    ((ColumnMap.ofList columns).get? a.column).map (·.type)

/-- The answer is the one that the calls made so far settle. -/
def SettledBy (calls : List Call) : Operation → Answer → Prop
  | columnsFor table, .columns result =>
    result.toOption = (Call.listed? calls table).map ColumnMap.ofList
  | columnFor a, .column result =>
    result.toOption = (Call.listed? calls a.table).map fun columns =>
      (ColumnMap.ofList columns).get? a.column
  | isCached table, .cached yes => yes = (Call.listed? calls table).isSome
  | cachedTables, .count n => n = calls.countP fun call => call.error?.isNone
  | render d e, .text result => result.toOption = e.text? d (listedTypes calls)
  | _, _ => False

end Operation

/-- The error of a lookup that the answer passes on. -/
def Answer.error? : Answer → Option LookupError
  | columns (.error x) => some x
  | column (.error x) => some x
  | text (.error (.lookup x)) => some x
  | _ => none

/-- Calls for the tables in order, up to the first call that failed. -/
inductive CallsFor : List String → List Call → Prop where
  | nil : CallsFor [] []
  | listed {table : String} {columns : List Column} {tables : List String} {calls : List Call}
      (rest : CallsFor tables calls) : CallsFor (table :: tables) (⟨table, .ok columns⟩ :: calls)
  | failed {table : String} {x : LookupError} {tables : List String} :
      CallsFor (table :: tables) [⟨table, .error x⟩]

/-- What a turn does after the calls in `before`: it calls for exactly the tables that it looks up
and that the provider has not listed yet, passes on the error of a call that failed, and answers by
what the provider has listed. -/
structure Turn.Follows (before : List Call) (turn : Turn) : Prop where
  calls : CallsFor
    (missing (fun table => (Call.listed? before table).isSome) turn.operation.tables) turn.calls
  error : turn.answer.error? = Call.firstError? turn.calls
  answer : turn.operation.SettledBy (before ++ turn.calls) turn.answer

inductive Session.Follows : List Call → List Turn → Prop where
  | nil {before : List Call} : Session.Follows before []
  | cons {before : List Call} {turn : Turn} {rest : List Turn} (first : turn.Follows before)
      (next : Session.Follows (before ++ turn.calls) rest) : Session.Follows before (turn :: rest)

/-! ### Recording changes nothing -/

section Recording

variable (provider : Provider σ)

theorem perform_recorded (c : SchemaCache (σ × List Call)) (op : Operation) :
    (c.perform provider.recorded op).1 = (c.unrecorded.perform provider op).1 ∧
    (c.perform provider.recorded op).2.unrecorded = (c.unrecorded.perform provider op).2 := by
  cases op with
  | columnsFor table =>
    obtain ⟨same, after⟩ := SchemaCache.agree_columnsFor provider table c _ rfl
    exact ⟨congrArg Answer.columns same, after⟩
  | columnFor a =>
    obtain ⟨same, after⟩ := SchemaCache.agree_columnFor provider a c _ rfl
    exact ⟨congrArg Answer.column same, after⟩
  | isCached table => exact ⟨rfl, rfl⟩
  | cachedTables => exact ⟨rfl, rfl⟩
  | render d e =>
    obtain ⟨same, after⟩ := agree_write d (agree_cached provider) e "" c _ rfl
    exact ⟨congrArg Answer.text same, after⟩

theorem session_answers (c : SchemaCache (σ × List Call)) (ops : List Operation) :
    (session provider c ops).map (·.answer) = c.unrecorded.answersTo provider ops := by
  induction ops generalizing c with
  | nil => rfl
  | cons op rest ih =>
    obtain ⟨same, after⟩ := perform_recorded provider c op
    rw [session, SchemaCache.answersTo, List.map_cons, ih, same, after]

end Recording

/-! ### What the calls settle -/

theorem callsFor_fetchEach (provider : Provider σ) (tables : List String) (s : σ) :
    CallsFor tables (fetchEach provider tables s).1 := by
  induction tables generalizing s with
  | nil => exact .nil
  | cons table rest ih =>
    rcases asked : (provider table).run.run s with ⟨x | columns, after⟩
    · rw [fetchEach_failed asked]
      exact .failed
    · rw [fetchEach_listed asked]
      exact .listed (ih after)

theorem error?_columns (result : Except LookupError ColumnMap) :
    (Answer.columns result).error? = LookupError.of? result := by
  cases result <;> rfl

theorem error?_column (result : Except LookupError (Option Column)) :
    (Answer.column result).error? = LookupError.of? result := by
  cases result <;> rfl

theorem error?_text (result : Except RenderError String) :
    (Answer.text result).error? = RenderError.lookup? result := by
  rcases result with (kind | x) | text <;> rfl

theorem fetched_perform (provider : Provider σ) (c : SchemaCache (σ × List Call))
    (op : Operation) :
    SchemaCache.Fetched provider op.tables c (c.perform provider.recorded op).2
      (c.perform provider.recorded op).1.error? := by
  cases op with
  | columnsFor table =>
    rw [SchemaCache.perform, error?_columns]
    exact SchemaCache.fetched_columnsFor provider table c
  | columnFor a =>
    have fetched := SchemaCache.fetched_columnsFor provider a.table c
    rw [SchemaCache.perform, error?_column, SchemaCache.run_columnFor]
    rcases run : (SchemaCache.columnsFor provider.recorded a.table).run.run c with
      ⟨x | columns, after⟩ <;> rw [run] at fetched <;> exact fetched
  | isCached table => exact SchemaCache.fetched_nil
  | cachedTables => exact SchemaCache.fetched_nil
  | render d e =>
    rw [SchemaCache.perform, error?_text]
    exact fetched_write provider d e "" c

/-! ### What a cache remembers of the calls -/

/-- The cache holds what the provider listed. The provider listed each table at most once, and was
not called for it again. -/
structure SchemaCache.Remembers (c : SchemaCache (σ × List Call)) : Prop where
  held : ∀ table, c.held? table = (Call.listed? c.source.2 table).map ColumnMap.ofList
  once : ∀ table, ∃ errors : List LookupError, Call.answers c.source.2 table =
    errors.map .error ++ ((Call.listed? c.source.2 table).map .ok).toList
  /-- Between two lookups no slot is left empty. -/
  filled : ∀ entry ∈ c.slots.entries, entry.2.isSome
  count : c.cachedTables = c.source.2.countP fun call => call.error?.isNone

theorem remembers_fresh (source : σ) : (SchemaCache.fresh (source, ([] : List Call))).Remembers where
  held table := rfl
  once table := ⟨[], rfl⟩
  filled entry member := by cases member
  count := rfl

theorem erase_of_filled {c : SchemaCache σ} (filled : ∀ entry ∈ c.slots.entries, entry.2.isSome)
    {table : String} (absent : c.held? table = none) : c.slots.erase table = c.slots := by
  obtain ⟨source, ⟨entries⟩, events⟩ := c
  rw [Keyed.erase, Keyed.mk.injEq, List.filter_eq_self]
  intro entry member
  rw [bne_iff_ne]
  intro same
  -- Otherwise the table would be held, with the columns of its first entry.
  obtain ⟨first, found⟩ : ∃ first, entries.find? (fun entry => entry.1 == table) = some first :=
    Option.isSome_iff_exists.mp (List.find?_isSome.mpr ⟨entry, member, by simp [same]⟩)
  obtain ⟨columns, full⟩ := Option.isSome_iff_exists.mp (filled first (List.mem_of_find?_eq_some found))
  simp [SchemaCache.held?, Keyed.get?, found, full] at absent

theorem Call.answers_append (left right : List Call) (table : String) :
    answers (left ++ right) table = answers left table ++ answers right table := by
  rw [answers, List.filter_append, List.map_append]
  rfl

theorem Call.answers_singleton (call : Call) (table : String) :
    answers [call] table = if call.table = table then [call.answer] else [] := by
  by_cases same : call.table = table <;> simp [answers, same]

namespace SchemaCache.Remembers

variable {c : SchemaCache (σ × List Call)} {table : String}

theorem unlisted (remembers : c.Remembers) (absent : c.held? table = none) :
    Call.listed? c.source.2 table = none := by
  rw [remembers.held, Option.map_eq_none_iff] at absent
  exact absent

/-- A table that was not held has failed so far, so its first list ends its answers. -/
theorem listed (remembers : c.Remembers) (absent : c.held? table = none) (s : σ)
    (columns : List Column) (events : List Event) :
    Remembers ⟨(s, c.source.2 ++ [⟨table, .ok columns⟩]),
      c.slots.insert table (some (ColumnMap.ofList columns)), events⟩ := by
  have unlisted := remembers.unlisted absent
  have kept := erase_of_filled remembers.filled absent
  refine ⟨fun other => ?_, fun other => ?_, fun entry member => ?_, ?_⟩
  · rw [held?_insert, Call.listed?_append, Call.listed?_cons_ok]
    split
    · next same => rw [same, unlisted]; rfl
    · exact (remembers.held other).trans (congrArg _ Option.or_none.symm)
  · obtain ⟨errors, answers⟩ := remembers.once other
    refine ⟨errors, ?_⟩
    rw [Call.answers_append, answers, Call.answers_singleton, Call.listed?_append,
      Call.listed?_cons_ok]
    by_cases same : other = table
    · rw [if_pos same.symm, if_pos same, same, unlisted]
      simp
    · rw [if_neg (Ne.symm same), if_neg same]
      simp [Call.listed?]
  · rw [Keyed.insert, kept, List.mem_cons] at member
    obtain rfl | member := member
    · rfl
    · exact remembers.filled entry member
  · rw [cachedTables, Keyed.insert, kept, List.countP_cons, List.countP_append,
      ← remembers.count]
    rfl

theorem failed (remembers : c.Remembers) (absent : c.held? table = none) (s : σ)
    (x : LookupError) (events : List Event) :
    Remembers ⟨(s, c.source.2 ++ [⟨table, .error x⟩]), c.slots.erase table, events⟩ := by
  have unlisted := remembers.unlisted absent
  have kept := erase_of_filled remembers.filled absent
  refine ⟨fun other => ?_, fun other => ?_, ?_, ?_⟩
  · rw [kept, Call.listed?_append, Call.listed?_cons_error]
    exact (remembers.held other).trans (congrArg _ Option.or_none.symm)
  · obtain ⟨errors, answers⟩ := remembers.once other
    rw [Call.answers_append, answers, Call.answers_singleton, Call.listed?_append,
      Call.listed?_cons_error]
    by_cases same : other = table
    · refine ⟨errors ++ [x], ?_⟩
      rw [if_pos same.symm, same, unlisted]
      simp [Call.listed?]
    · refine ⟨errors, ?_⟩
      rw [if_neg (Ne.symm same)]
      simp [Call.listed?]
  · rw [kept]
    exact remembers.filled
  · rw [cachedTables, kept, List.countP_append, ← remembers.count]
    rfl

end SchemaCache.Remembers

theorem remembers_columnsFor (provider : Provider σ) (table : String)
    (c : SchemaCache (σ × List Call)) (remembers : c.Remembers) :
    ((SchemaCache.columnsFor provider.recorded table).run.run c).2.Remembers := by
  rcases SchemaCache.columnsFor_recorded_cases provider table c with
    ⟨columns, held, run⟩ | ⟨columns, s, absent, call, run⟩ | ⟨x, s, absent, call, run⟩ <;> rw [run]
  · obtain ⟨holds, once, filled, count⟩ := remembers
    exact ⟨holds, once, filled, count⟩
  · exact remembers.listed absent s columns _
  · exact remembers.failed absent s x _

/-! ### From one lookup to a session -/

section Preservation

variable {Holds : SchemaCache σ → Prop} {provider : Provider σ}

theorem preserved_meetAll
    (step : ∀ table c, Holds c → Holds ((SchemaCache.columnsFor provider table).run.run c).2)
    (demands : List Demand) (c : SchemaCache σ) (before : Holds c) :
    Holds ((meetAll (.cached provider) demands).run.run c).2 := by
  induction demands generalizing c with
  | nil => exact before
  | cons demand rest ih =>
    cases demand with
    | refusal kind => exact before
    | type a =>
      have cached := run_cached provider a c
      have held := step a.table c before
      rcases run : (SchemaCache.columnsFor provider a.table).run.run c with ⟨x | columns, after⟩ <;>
        rw [run] at cached held
      · rw [run_meetAll_failed (run_meet_failed cached)]
        exact held
      · rw [run_meetAll_met (run_meet_found cached)]
        exact ih after held

theorem preserved_perform
    (step : ∀ table c, Holds c → Holds ((SchemaCache.columnsFor provider table).run.run c).2)
    (c : SchemaCache σ) (op : Operation) (before : Holds c) : Holds (c.perform provider op).2 := by
  cases op with
  | columnsFor table => exact step table c before
  | columnFor a =>
    rw [SchemaCache.perform, SchemaCache.run_columnFor]
    exact step a.table c before
  | isCached table => exact before
  | cachedTables => exact before
  | render d e =>
    obtain ⟨state, -⟩ := run_write (keeps_cached provider) d e "" c
    have met := preserved_meetAll step e.demands c before
    rw [← state] at met
    exact met

theorem SchemaCache.preserved_after
    (step : ∀ table c, Holds c → Holds ((SchemaCache.columnsFor provider table).run.run c).2)
    (ops : List Operation) {c : SchemaCache σ} (before : Holds c) :
    Holds (c.after provider ops) := by
  induction ops generalizing c with
  | nil => exact before
  | cons op rest ih => exact ih (preserved_perform step c op before)

end Preservation

theorem known_of_remembers {c : SchemaCache (σ × List Call)} (remembers : c.Remembers) :
    c.known = Operation.listedTypes c.source.2 := by
  funext a
  rw [SchemaCache.known, Operation.listedTypes, remembers.held, Option.map_map]
  rfl

theorem settled_perform (provider : Provider σ) (c : SchemaCache (σ × List Call)) (op : Operation)
    (remembers : c.Remembers) :
    op.SettledBy (c.perform provider.recorded op).2.source.2
      (c.perform provider.recorded op).1 := by
  have after := preserved_perform (remembers_columnsFor provider) c op remembers
  cases op with
  | columnsFor table =>
    have held := SchemaCache.held?_columnsFor provider.recorded table table c
    rw [if_pos rfl] at held
    exact held.symm.trans (after.held table)
  | columnFor a =>
    have held := SchemaCache.held?_columnsFor provider.recorded a.table a.table c
    have listed := after.held a.table
    rw [SchemaCache.perform, SchemaCache.run_columnFor] at listed ⊢
    rw [if_pos rfl] at held
    have found := congrArg (Option.map (·.get? a.column)) (held.symm.trans listed)
    rw [Option.map_map] at found
    refine Eq.trans ?_ found
    cases ((SchemaCache.columnsFor provider.recorded a.table).run.run c).1 <;> rfl
  | isCached table =>
    show c.isCached table = _
    rw [SchemaCache.isCached, remembers.held, Option.isSome_map]
    rfl
  | cachedTables => exact remembers.count
  | render d e =>
    obtain ⟨-, composed, -⟩ := run_write (keeps_cached provider.recorded) d e "" c
    have known : (c.perform provider.recorded (.render d e)).2.known = _ := known_of_remembers after
    refine composed.trans ?_
    rw [← known]
    show Option.map ("" ++ ·) (e.text? d (c.perform provider.recorded (.render d e)).2.known) = _
    cases e.text? d (c.perform provider.recorded (.render d e)).2.known with
    | none => rfl
    | some text => exact congrArg some String.empty_append

theorem follows_perform (provider : Provider σ) (c : SchemaCache (σ × List Call)) (op : Operation)
    (remembers : c.Remembers) :
    ∃ calls, (c.perform provider.recorded op).2.source.2 = c.source.2 ++ calls ∧
      Turn.Follows c.source.2 ⟨op, calls, (c.perform provider.recorded op).1⟩ := by
  obtain ⟨source, -, error⟩ := fetched_perform provider c op
  have log : (c.perform provider.recorded op).2.source.2 =
      c.source.2 ++ (c.callsFor provider op.tables).1 := by rw [source]
  refine ⟨(c.callsFor provider op.tables).1, log, ?_, error, ?_⟩
  · have held : c.isCached = fun table => (Call.listed? c.source.2 table).isSome := by
      funext table
      rw [SchemaCache.isCached, remembers.held, Option.isSome_map]
    rw [← held]
    exact callsFor_fetchEach provider _ _
  · have settled := settled_perform provider c op remembers
    rw [log] at settled
    exact settled

theorem session_follows (provider : Provider σ) (c : SchemaCache (σ × List Call))
    (ops : List Operation) (remembers : c.Remembers) :
    Session.Follows c.source.2 (session provider c ops) ∧
    ∀ table, ∃ errors : List LookupError,
      Call.answers (c.source.2 ++ Session.calls (session provider c ops)) table =
        errors.map .error ++
          ((Call.listed? (c.source.2 ++ Session.calls (session provider c ops)) table).map
            .ok).toList := by
  induction ops generalizing c with
  | nil =>
    refine ⟨.nil, fun table => ?_⟩
    have same : c.source.2 ++ Session.calls (session provider c []) = c.source.2 :=
      List.append_nil _
    rw [same]
    exact remembers.once table
  | cons op rest ih =>
    obtain ⟨calls, log, follows⟩ := follows_perform provider c op remembers
    obtain ⟨later, once⟩ := ih (c.perform provider.recorded op).2
      (preserved_perform (remembers_columnsFor provider) c op remembers)
    -- The rest of the session starts from the calls so far and those of this turn.
    rw [log] at later once
    have turns : session provider c (op :: rest) =
        ⟨op, calls, (c.perform provider.recorded op).1⟩ ::
          session provider (c.perform provider.recorded op).2 rest := by
      have made : (c.perform provider.recorded op).2.source.2.drop c.source.2.length = calls := by
        rw [log, List.drop_left]
      rw [← made]
      rfl
    rw [turns, Session.calls, List.flatMap_cons, ← List.append_assoc]
    exact ⟨.cons follows later, once⟩

/-- In a session with a new cache, whatever the provider does:
* recording the calls changes no answer;
* the provider answers for a table with errors and then at most once with columns;
* each turn calls for the tables that it looks up and that were not listed so far, up to the first
  call that fails, passes on the error of that call, and answers by what was listed;
* of a list of columns, a name leads to the last column that has it. -/
theorem session_remembers (provider : Provider σ) (source : σ) (ops : List Operation) :
    let turns := session provider (.fresh (source, [])) ops
    turns.map (·.answer) = (SchemaCache.fresh source).answersTo provider ops ∧
    (∀ table, ∃ errors : List LookupError, Call.answers (Session.calls turns) table =
      errors.map .error ++ ((Call.listed? (Session.calls turns) table).map .ok).toList) ∧
    Session.Follows [] turns ∧
    ∀ columns name,
      (ColumnMap.ofList columns).get? name = columns.reverse.find? (·.name == name) ∧
      (((ColumnMap.ofList columns).get? name).isSome ↔ name ∈ columns.map (·.name)) := by
  obtain ⟨follows, once⟩ :=
    session_follows provider (.fresh (source, [])) ops (remembers_fresh source)
  refine ⟨session_answers provider (.fresh (source, [])) ops, once, follows, ?_⟩
  intro columns name
  exact ⟨ColumnMap.get?_ofList columns name, ColumnMap.get?_ofList_isSome columns name⟩

end SqlFragment
