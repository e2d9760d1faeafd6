import SqlFragment.Proofs.Lookup.Columns

/-!
# The calls of a provider

A provider that keeps a list of the calls made of it, and what a lookup adds to that list: nothing
if the columns are held, else one call (`columnsFor_recorded_cases`). `fetchEach` calls for several
tables and stops after the first failure.
-/

namespace SqlFragment

structure Call where
  table : String
  answer : Except LookupError (List Column)

def LookupError.of? {α : Type} : Except LookupError α → Option LookupError
  | .ok _ => none
  | .error x => some x

namespace Call

def error? (call : Call) : Option LookupError := LookupError.of? call.answer

/-- What the provider listed for the table, the first time that it did. -/
def listed? (calls : List Call) (table : String) : Option (List Column) :=
  calls.findSome? fun call => if call.table = table then call.answer.toOption else none

/-- All that the provider answered for the table, in order. -/
def answers (calls : List Call) (table : String) : List (Except LookupError (List Column)) :=
  (calls.filter fun call => call.table = table).map (·.answer)

def firstError? (calls : List Call) : Option LookupError := calls.findSome? error?

theorem listed?_append (left right : List Call) (table : String) :
    listed? (left ++ right) table = (listed? left table).or (listed? right table) :=
  List.findSome?_append

theorem listed?_cons_ok (name : String) (columns : List Column) (calls : List Call)
    (table : String) :
    listed? (⟨name, .ok columns⟩ :: calls) table =
      if table = name then some columns else listed? calls table := by
  by_cases same : name = table
  · simp [listed?, same, Except.toOption]
  · simp [listed?, same, Ne.symm same]

theorem listed?_cons_error (name : String) (x : LookupError) (calls : List Call)
    (table : String) : listed? (⟨name, .error x⟩ :: calls) table = listed? calls table := by
  by_cases same : name = table <;> simp [listed?, same, Except.toOption]

end Call

variable {σ : Type}

/-- The provider, with the list of its calls so far as a further state. -/
def Provider.recorded (provider : Provider σ) : Provider (σ × List Call) :=
  fun table (s, calls) =>
    let (answer, after) := (provider table).run.run s
    (answer, after, calls ++ [⟨table, answer⟩])

/-- Calls the provider for one table after the other, up to the first call that fails. -/
def fetchEach (provider : Provider σ) : List String → σ → List Call × σ
  | [], s => ([], s)
  | table :: rest, s =>
    match (provider table).run.run s with
    | (.ok columns, after) =>
      let (calls, last) := fetchEach provider rest after
      (⟨table, .ok columns⟩ :: calls, last)
    | (.error x, after) => ([⟨table, .error x⟩], after)

/-- The tables that are not held, each where it comes first. -/
def missing (held : String → Bool) (tables : List String) : List String :=
  (tables.filter fun table => !held table).eraseDups

theorem missing_cons_held {held : String → Bool} {table : String} (h : held table)
    (rest : List String) : missing held (table :: rest) = missing held rest := by
  rw [missing, List.filter_cons_of_neg (by simp [h])]
  rfl

theorem missing_cons_absent {held : String → Bool} {table : String} (h : held table = false)
    (rest : List String) :
    missing held (table :: rest) =
      table :: missing (fun other => other == table || held other) rest := by
  rw [missing, List.filter_cons_of_pos (by simp [h]), List.eraseDups_cons, List.filter_filter]
  congr 3
  funext other
  simp [Bool.not_or]

theorem fetchEach_listed {provider : Provider σ} {table : String} {s after : σ}
    {columns : List Column} (h : (provider table).run.run s = (.ok columns, after))
    (rest : List String) :
    fetchEach provider (table :: rest) s =
      (⟨table, .ok columns⟩ :: (fetchEach provider rest after).1,
        (fetchEach provider rest after).2) := by
  rw [fetchEach, h]

theorem fetchEach_failed {provider : Provider σ} {table : String} {s after : σ} {x : LookupError}
    (h : (provider table).run.run s = (.error x, after)) (rest : List String) :
    fetchEach provider (table :: rest) s = ([⟨table, .error x⟩], after) := by
  rw [fetchEach, h]

theorem run_recorded {provider : Provider σ} {table : String} {s after : σ}
    {answer : Except LookupError (List Column)}
    (h : (provider table).run.run s = (answer, after)) (calls : List Call) :
    (provider.recorded table).run.run (s, calls) = (answer, after, calls ++ [⟨table, answer⟩]) := by
  change provider table s = (answer, after) at h
  show provider.recorded table (s, calls) = _
  rw [Provider.recorded]
  show (((provider table s).1, (provider table s).2, _) : _ × σ × List Call) = _
  rw [h]

namespace SchemaCache

theorem isCached_eq_false {c : SchemaCache σ} {table : String} :
    c.isCached table = false ↔ c.held? table = none := by
  rw [isCached, Option.isSome_eq_false_iff, Option.isNone_iff_eq_none]

theorem isCached_of_held {c : SchemaCache σ} {table : String} {columns : ColumnMap}
    (h : c.held? table = some columns) : c.isCached table := by
  rw [isCached, h]
  rfl

theorem columnsFor_recorded_cases (provider : Provider σ) (table : String)
    (c : SchemaCache (σ × List Call)) :
    (∃ columns, c.held? table = some columns ∧
      (columnsFor provider.recorded table).run.run c = (.ok columns, c.record (.hit table))) ∨
    (∃ listed s, c.held? table = none ∧
      (provider table).run.run c.source.1 = (.ok listed, s) ∧
      (columnsFor provider.recorded table).run.run c =
        (.ok (ColumnMap.ofList listed),
          { source := (s, c.source.2 ++ [⟨table, .ok listed⟩])
            slots := c.slots.insert table (some (ColumnMap.ofList listed))
            events := c.events ++
              [.miss table, .stored table (ColumnMap.ofList listed).size] })) ∨
    (∃ x s, c.held? table = none ∧
      (provider table).run.run c.source.1 = (.error x, s) ∧
      (columnsFor provider.recorded table).run.run c =
        (.error x,
          { source := (s, c.source.2 ++ [⟨table, .error x⟩])
            slots := c.slots.erase table
            events := c.events ++ [.miss table, .failed table x] })) := by
  rcases columnsFor_cases provider.recorded table c with
    hit | ⟨listed, source, absent, asked, run⟩ | ⟨x, source, absent, asked, run⟩
  · exact Or.inl hit
  · rcases call : (provider table).run.run c.source.1 with ⟨y | found, s⟩ <;>
      rw [run_recorded call] at asked <;> cases asked
    exact Or.inr (Or.inl ⟨listed, s, absent, rfl, run⟩)
  · rcases call : (provider table).run.run c.source.1 with ⟨y | found, s⟩ <;>
      rw [run_recorded call] at asked <;> cases asked
    exact Or.inr (Or.inr ⟨x, s, absent, rfl, run⟩)

/-! ### Recording changes nothing -/

def unrecorded (c : SchemaCache (σ × List Call)) : SchemaCache σ :=
  ⟨c.source.1, c.slots, c.events⟩

theorem agree_columnsFor (provider : Provider σ) (table : String) :
    Effect.Agree (fun c plain => c.unrecorded = plain)
      (columnsFor provider.recorded table) (columnsFor provider table) := by
  rintro c _ rfl
  rcases columnsFor_recorded_cases provider table c with
    ⟨columns, held, run⟩ | ⟨listed, s, absent, call, run⟩ | ⟨x, s, absent, call, run⟩
  · have plain : (columnsFor provider table).run.run c.unrecorded = _ :=
      columnsFor_of_held held
    rw [run, plain]
    exact ⟨rfl, rfl⟩
  · have plain := columnsFor_of_listed (c := c.unrecorded) absent call
    rw [run, plain]
    exact ⟨rfl, rfl⟩
  · have plain := columnsFor_of_failed (c := c.unrecorded) absent call
    rw [run, plain]
    exact ⟨rfl, rfl⟩

theorem agree_columnFor (provider : Provider σ) (a : Attribute) :
    Effect.Agree (fun c plain => c.unrecorded = plain)
      (columnFor provider.recorded a) (columnFor provider a) :=
  Effect.agree_bind (agree_columnsFor provider a.table) fun _ => Effect.agree_pure _

/-! ### Fetching several tables -/

/-- The calls that fetching the tables one after the other takes, and the state in which they leave
the provider. -/
def callsFor (provider : Provider σ) (tables : List String) (c : SchemaCache (σ × List Call)) :
    List Call × σ :=
  fetchEach provider (missing c.isCached tables) c.source.1

/-- The tables have been fetched one after the other, as far as no call failed: exactly the calls for
the missing ones were made, what was listed is held besides what was held before, and `error` is
what the call that failed returned. -/
structure Fetched (provider : Provider σ) (tables : List String)
    (before after : SchemaCache (σ × List Call)) (error : Option LookupError) : Prop where
  source : after.source =
    ((before.callsFor provider tables).2, before.source.2 ++ (before.callsFor provider tables).1)
  held : ∀ table, after.held? table = (before.held? table).or
    ((Call.listed? (before.callsFor provider tables).1 table).map ColumnMap.ofList)
  error : error = Call.firstError? (before.callsFor provider tables).1

variable {provider : Provider σ} {c after : SchemaCache (σ × List Call)} {table : String}
  {tables : List String} {error : Option LookupError}

theorem fetched_nil : Fetched provider [] c c none where
  source := by
    show c.source = (c.source.1, c.source.2 ++ [])
    rw [List.append_nil]
  held other := Option.or_none.symm
  error := rfl

theorem fetched_cons_held {columns : ColumnMap} (held : c.held? table = some columns) {e : Event}
    (rest : Fetched provider tables (c.record e) after error) :
    Fetched provider (table :: tables) c after error := by
  have same : c.callsFor provider (table :: tables) = (c.record e).callsFor provider tables := by
    rw [callsFor, missing_cons_held (isCached_of_held held)]
    rfl
  exact ⟨by rw [same]; exact rest.source, by rw [same]; exact rest.held,
    by rw [same]; exact rest.error⟩

theorem isCached_insert (source : σ × List Call) (events : List Event)
    (c : SchemaCache (σ × List Call)) (table : String) (columns : ColumnMap) :
    isCached ⟨source, c.slots.insert table (some columns), events⟩ =
      fun other => other == table || c.isCached other := by
  funext other
  rw [isCached, held?_insert]
  by_cases same : other = table
  · simp [same]
  · simp [same, isCached, held?]

theorem fetched_cons_listed {listed : List Column} {s : σ} {events : List Event}
    (absent : c.held? table = none)
    (asked : (provider table).run.run c.source.1 = (.ok listed, s))
    (rest : Fetched provider tables
      ⟨(s, c.source.2 ++ [⟨table, .ok listed⟩]),
        c.slots.insert table (some (ColumnMap.ofList listed)), events⟩ after error) :
    Fetched provider (table :: tables) c after error := by
  obtain ⟨source, held, failed⟩ := rest
  have same : c.callsFor provider (table :: tables) =
      (⟨table, .ok listed⟩ ::
          (fetchEach provider (missing (fun other => other == table || c.isCached other) tables) s).1,
        (fetchEach provider
          (missing (fun other => other == table || c.isCached other) tables) s).2) := by
    rw [callsFor, missing_cons_absent (isCached_eq_false.mpr absent), fetchEach_listed asked]
  simp only [callsFor, isCached_insert] at source held failed
  refine ⟨?_, fun other => ?_, ?_⟩
  · rw [same, source, List.append_assoc]
    rfl
  · rw [same, held, held?_insert, Call.listed?_cons_ok]
    split
    · next same => rw [same, absent]; rfl
    · rfl
  · rw [same, failed]
    rfl

theorem fetched_cons_failed {x : LookupError} {s : σ} {events : List Event}
    (absent : c.held? table = none)
    (asked : (provider table).run.run c.source.1 = (.error x, s)) :
    Fetched provider (table :: tables) c
      ⟨(s, c.source.2 ++ [⟨table, .error x⟩]), c.slots.erase table, events⟩ (some x) := by
  have same : c.callsFor provider (table :: tables) = ([⟨table, .error x⟩], s) := by
    rw [callsFor, missing_cons_absent (isCached_eq_false.mpr absent), fetchEach_failed asked]
  refine ⟨by rw [same], fun other => ?_, by rw [same]; rfl⟩
  rw [same, held?_erase, Call.listed?_cons_error]
  split
  · next same => rw [same, absent]; rfl
  · exact Option.or_none.symm

theorem fetched_columnsFor (provider : Provider σ) (table : String)
    (c : SchemaCache (σ × List Call)) :
    Fetched provider [table] c ((columnsFor provider.recorded table).run.run c).2
      (LookupError.of? ((columnsFor provider.recorded table).run.run c).1) := by
  rcases columnsFor_recorded_cases provider table c with
    ⟨columns, held, run⟩ | ⟨listed, s, absent, call, run⟩ | ⟨x, s, absent, call, run⟩ <;> rw [run]
  · exact fetched_cons_held held fetched_nil
  · exact fetched_cons_listed absent call fetched_nil
  · exact fetched_cons_failed absent call

end SchemaCache

end SqlFragment
