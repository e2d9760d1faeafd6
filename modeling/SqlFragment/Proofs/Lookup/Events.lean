import SqlFragment.Proofs.Lookup.Failure

/-!
# The events of a cache

What the log of a cache says of the lookups that were made. A query makes its lookups one after the
other, none or several; they are noted here as they happen, by the name of the table. Main
statement: after each lookup of a session the events account for all lookups so far
(`events_account_for_lookups`).
-/

namespace SqlFragment

variable {σ τ : Type}

namespace Event

def isHit : Event → Bool
  | hit _ => true
  | _ => false

def isMiss : Event → Bool
  | miss _ => true
  | _ => false

def isFailed : Event → Bool
  | failed _ _ => true
  | _ => false

def stored? : Event → Option String
  | stored table _ => some table
  | _ => none

end Event

structure Lookup where
  table : String
  cached : Bool
  calls : List Call
  log : List LogLine
  answer : Except LookupError ColumnMap

def Lookup.failed (lookup : Lookup) : Bool := (LookupError.of? lookup.answer).isSome

/-- A lookup of a cached table shows as a hit. Any other shows as a miss, and then either with the
number of different names that the provider listed, or with its error, which is also the answer. -/
inductive Lookup.Shown : Lookup → Prop where
  | hit (table : String) (columns : ColumnMap) :
      Shown ⟨table, true, [], [⟨.trace, "schema cache hit", table, none, none⟩], .ok columns⟩
  | stored (table : String) (listed : List Column) :
      Shown ⟨table, false, [⟨table, .ok listed⟩],
        [⟨.debug, "schema cache miss, fetching columns", table, none, none⟩,
          ⟨.debug, "cached table columns", table, some (listed.map (·.name)).dedup.length, none⟩],
        .ok (ColumnMap.ofList listed)⟩
  | failed (table : String) (x : LookupError) :
      Shown ⟨table, false, [⟨table, .error x⟩],
        [⟨.debug, "schema cache miss, fetching columns", table, none, none⟩,
          ⟨.debug, "column fetch failed", table, none, some x.message⟩],
        .error x⟩

namespace SchemaCache

/-- The tables that events report as stored, one for each such event. -/
def reported (c : SchemaCache σ) : List String := c.events.filterMap Event.stored?

/-- Looks the table up, over a provider that records its calls. -/
def lookUp (provider : Provider σ) (c : SchemaCache (σ × List Call)) (table : String) :
    Lookup × SchemaCache (σ × List Call) :=
  let (answer, after) := (columnsFor provider.recorded table).run.run c
  (⟨table, c.isCached table, after.source.2.drop c.source.2.length, after.log.drop c.log.length,
    answer⟩, after)

def lookUpEach (provider : Provider σ) (c : SchemaCache (σ × List Call)) :
    List String → List Lookup × SchemaCache (σ × List Call)
  | [] => ([], c)
  | table :: rest =>
    let (first, after) := c.lookUp provider table
    let (others, last) := after.lookUpEach provider rest
    (first :: others, last)

/-- The events account for the lookups that were made, and for the calls that these took. -/
structure Accounts (lookups : List Lookup) (c : SchemaCache (σ × List Call)) : Prop where
  log : c.log = lookups.flatMap (·.log)
  calls : c.source.2 = lookups.flatMap (·.calls)
  total : c.events.countP Event.isHit + c.events.countP Event.isMiss = lookups.length
  misses : c.events.countP Event.isMiss = c.source.2.length
  fetches : c.source.2.length = c.reported.length + c.events.countP Event.isFailed
  failures : c.events.countP Event.isFailed = lookups.countP Lookup.failed
  cached : c.reported.length = c.cachedTables
  tables : ∀ table, table ∈ c.reported ↔ c.isCached table
  distinct : c.reported.Nodup

end SchemaCache

def ColumnLookup.noted (provider : Provider σ) : ColumnLookup (SchemaCache σ × List String) :=
  fun table (c, tables) =>
    let (answer, after) := (SchemaCache.columnsFor provider table).run.run c
    (answer, after, tables ++ [table])

def Query.after (columns : ColumnLookup σ) (s : σ) (queries : List Query) : σ :=
  queries.foldl (fun s query => (query.ask columns s).2) s

/-! ### One lookup -/

theorem ColumnMap.size_ofList (columns : List Column) :
    (ofList columns).size = (columns.map (·.name)).dedup.length := by
  have distinct : (ofList columns).names.Nodup := by
    suffices built : ∀ m : ColumnMap, m.names.Nodup →
        (columns.foldl (fun m c => m.insert c.name c) m).names.Nodup from
      built ∅ List.nodup_nil
    induction columns with
    | nil => exact fun _ distinct => distinct
    | cons c rest ih => exact fun m distinct => ih _ (Keyed.nodup_insert distinct c.name c)
  have same : (ofList columns).names.toFinset = (columns.map (·.name)).toFinset := by
    ext name
    rw [List.mem_toFinset, List.mem_toFinset, Keyed.mem_names_iff, get?_ofList_isSome]
  have length : (ofList columns).size = (ofList columns).names.length := (List.length_map _).symm
  rw [length, ← List.toFinset_card_of_nodup distinct, same, List.card_toFinset]

namespace SchemaCache

theorem lookUp_cases (provider : Provider σ) (c : SchemaCache (σ × List Call)) (table : String) :
    (∃ columns, c.held? table = some columns ∧
      c.lookUp provider table =
        (⟨table, true, [], [Event.line (.hit table)], .ok columns⟩, c.record (.hit table))) ∨
    (∃ listed s, c.held? table = none ∧
      c.lookUp provider table =
        (⟨table, false, [⟨table, .ok listed⟩],
            [Event.line (.miss table), Event.line (.stored table (ColumnMap.ofList listed).size)],
            .ok (ColumnMap.ofList listed)⟩,
          { source := (s, c.source.2 ++ [⟨table, .ok listed⟩])
            slots := c.slots.insert table (some (ColumnMap.ofList listed))
            events := c.events ++
              [.miss table, .stored table (ColumnMap.ofList listed).size] })) ∨
    (∃ x s, c.held? table = none ∧
      c.lookUp provider table =
        (⟨table, false, [⟨table, .error x⟩],
            [Event.line (.miss table), Event.line (.failed table x)], .error x⟩,
          { source := (s, c.source.2 ++ [⟨table, .error x⟩])
            slots := c.slots.erase table
            events := c.events ++ [.miss table, .failed table x] })) := by
  rcases columnsFor_recorded_cases provider table c with
    ⟨columns, held, run⟩ | ⟨listed, s, absent, -, run⟩ | ⟨x, s, absent, -, run⟩
  · refine Or.inl ⟨columns, held, ?_⟩
    rw [lookUp, run]
    simp [isCached, held, record, log]
  · refine Or.inr (Or.inl ⟨listed, s, absent, ?_⟩)
    rw [lookUp, run]
    simp [isCached, absent, log]
  · refine Or.inr (Or.inr ⟨x, s, absent, ?_⟩)
    rw [lookUp, run]
    simp [isCached, absent, log]

theorem shown_lookUp (provider : Provider σ) (c : SchemaCache (σ × List Call)) (table : String) :
    (c.lookUp provider table).1.Shown := by
  rcases lookUp_cases provider c table with
    ⟨columns, -, run⟩ | ⟨listed, s, -, run⟩ | ⟨x, s, -, run⟩ <;> rw [run]
  · exact .hit table columns
  · rw [ColumnMap.size_ofList]
    exact .stored table listed
  · exact .failed table x

theorem accounts_fresh (source : σ) : Accounts [] (fresh (source, ([] : List Call))) where
  log := rfl
  calls := rfl
  total := rfl
  misses := rfl
  fetches := rfl
  failures := rfl
  cached := rfl
  tables _ := iff_of_false List.not_mem_nil nofun
  distinct := List.nodup_nil

/-- What a lookup adds to the accounts: it leaves the events `more`. -/
structure Adds (lookup : Lookup) (more : List Event)
    (c after : SchemaCache (σ × List Call)) : Prop where
  events : after.events = c.events ++ more
  log : lookup.log = more.map Event.line
  calls : after.source.2 = c.source.2 ++ lookup.calls
  total : more.countP Event.isHit + more.countP Event.isMiss = 1
  misses : more.countP Event.isMiss = lookup.calls.length
  fetches : lookup.calls.length = (more.filterMap Event.stored?).length + more.countP Event.isFailed
  failures : more.countP Event.isFailed = [lookup].countP Lookup.failed
  cached : after.cachedTables = c.cachedTables + (more.filterMap Event.stored?).length
  tables : ∀ table, after.isCached table ↔
    c.isCached table ∨ table ∈ more.filterMap Event.stored?
  fresh : ∀ table ∈ more.filterMap Event.stored?, ¬ c.isCached table
  distinct : (more.filterMap Event.stored?).Nodup

theorem Accounts.add {c after : SchemaCache (σ × List Call)} {done : List Lookup} {lookup : Lookup}
    {more : List Event} (accounts : Accounts done c) (adds : Adds lookup more c after) :
    Accounts (done ++ [lookup]) after := by
  have reported : after.reported = c.reported ++ more.filterMap Event.stored? := by
    rw [SchemaCache.reported, adds.events]
    exact List.filterMap_append
  have count (kind : Event → Bool) :
      after.events.countP kind = c.events.countP kind + more.countP kind := by
    rw [adds.events, List.countP_append]
  constructor
  case log =>
    rw [List.flatMap_append, List.flatMap_singleton, ← accounts.log, adds.log, SchemaCache.log,
      adds.events]
    exact List.map_append
  case calls => rw [adds.calls, accounts.calls, List.flatMap_append, List.flatMap_singleton]
  case total =>
    rw [count, count, List.length_append, ← accounts.total, List.length_singleton, ← adds.total]
    omega
  case misses => rw [count, adds.calls, List.length_append, accounts.misses, adds.misses]
  case fetches =>
    rw [count, reported, adds.calls, List.length_append, List.length_append, accounts.fetches,
      adds.fetches]
    omega
  case failures => rw [count, List.countP_append, accounts.failures, adds.failures]
  case cached => rw [reported, List.length_append, accounts.cached, adds.cached]
  case tables =>
    intro table
    rw [reported, List.mem_append, accounts.tables, adds.tables]
  case distinct =>
    rw [reported]
    exact accounts.distinct.append adds.distinct fun table old new =>
      adds.fresh table new ((accounts.tables table).mp old)

theorem adds_lookUp (provider : Provider σ) {c : SchemaCache (σ × List Call)}
    (remembers : c.Remembers) (table : String) :
    ∃ more, Adds (c.lookUp provider table).1 more c (c.lookUp provider table).2 := by
  have after : (c.lookUp provider table).2.Remembers :=
    remembers_columnsFor provider table c remembers
  have counted := after.count
  have fresh (other : String) (new : other ∈ []) : ¬ c.isCached other :=
    absurd new List.not_mem_nil
  rcases lookUp_cases provider c table with
    ⟨columns, held, run⟩ | ⟨listed, s, absent, run⟩ | ⟨x, s, absent, run⟩ <;> rw [run] at counted ⊢
  · refine ⟨[.hit table], rfl, rfl, (List.append_nil _).symm, rfl, rfl, rfl, rfl, rfl, ?_, fresh,
      List.nodup_nil⟩
    exact fun other => (or_iff_left List.not_mem_nil).symm
  · rw [List.countP_append, ← remembers.count] at counted
    refine ⟨[.miss table, .stored table (ColumnMap.ofList listed).size], rfl, rfl, rfl, rfl, rfl,
      rfl, rfl, counted, ?_, ?_, List.nodup_singleton table⟩
    · intro other
      rw [isCached_insert, Bool.or_eq_true, beq_iff_eq, or_comm]
      exact or_congr_right List.mem_singleton.symm
    · intro other new
      rw [List.mem_singleton.mp new, isCached, absent]
      exact Bool.false_ne_true
  · rw [List.countP_append, ← remembers.count] at counted
    refine ⟨[.miss table, .failed table x], rfl, rfl, rfl, rfl, rfl, rfl, rfl, counted, ?_, fresh,
      List.nodup_nil⟩
    rw [erase_of_filled remembers.filled absent]
    exact fun other => (or_iff_left List.not_mem_nil).symm

/-! ### Lookups one after the other -/

theorem lookUpEach_append (provider : Provider σ) (c : SchemaCache (σ × List Call))
    (left right : List String) :
    c.lookUpEach provider (left ++ right) =
      ((c.lookUpEach provider left).1 ++
          ((c.lookUpEach provider left).2.lookUpEach provider right).1,
        ((c.lookUpEach provider left).2.lookUpEach provider right).2) := by
  induction left generalizing c with
  | nil => rfl
  | cons table rest ih =>
    have first : c.lookUpEach provider (table :: (rest ++ right)) =
        ((c.lookUp provider table).1 ::
            ((c.lookUp provider table).2.lookUpEach provider (rest ++ right)).1,
          ((c.lookUp provider table).2.lookUpEach provider (rest ++ right)).2) := rfl
    rw [List.cons_append, first, ih]
    rfl

theorem shown_lookUpEach (provider : Provider σ) (c : SchemaCache (σ × List Call))
    (tables : List String) : ∀ lookup ∈ (c.lookUpEach provider tables).1, lookup.Shown := by
  induction tables generalizing c with
  | nil => exact nofun
  | cons table rest ih => exact List.forall_mem_cons.mpr ⟨shown_lookUp provider c table, ih _⟩

theorem accounts_lookUpEach (provider : Provider σ) (tables : List String)
    {c : SchemaCache (σ × List Call)} {done : List Lookup} (remembers : c.Remembers)
    (accounts : Accounts done c) :
    Accounts (done ++ (c.lookUpEach provider tables).1) (c.lookUpEach provider tables).2 := by
  induction tables generalizing c done with
  | nil =>
    rw [lookUpEach, List.append_nil]
    exact accounts
  | cons table rest ih =>
    obtain ⟨more, adds⟩ := adds_lookUp provider remembers table
    have later := ih (remembers_columnsFor provider table c remembers) (accounts.add adds)
    rw [List.append_assoc] at later
    exact later

end SchemaCache

/-! ### The lookups of a session -/

section Noting

variable (provider : Provider σ)

/-- The cache is `plain` but for the recorded calls, and the noted tables lead to it. -/
def NotedFrom (start : SchemaCache (σ × List Call))
    (noted : SchemaCache (σ × List Call) × List String) (plain : SchemaCache σ) : Prop :=
  noted.1.unrecorded = plain ∧ noted.1 = (start.lookUpEach provider noted.2).2

theorem ColumnLookup.agree_noted (start : SchemaCache (σ × List Call)) (table : String) :
    Effect.Agree (NotedFrom provider start) (ColumnLookup.noted provider.recorded table)
      (SchemaCache.columnsFor provider table) := by
  rintro ⟨c, tables⟩ _ ⟨rfl, reached⟩
  obtain ⟨same, after⟩ := SchemaCache.agree_columnsFor provider table c _ rfl
  refine ⟨same, after, ?_⟩
  show ((SchemaCache.columnsFor provider.recorded table).run.run c).2 =
    (start.lookUpEach provider (tables ++ [table])).2
  rw [SchemaCache.lookUpEach_append, ← reached]
  rfl

theorem Query.after_of_agree {related : σ → τ → Prop} {columns : ColumnLookup σ}
    {other : ColumnLookup τ}
    (lookups : ∀ table, Effect.Agree related (columns table) (other table)) (queries : List Query)
    {s : σ} {t : τ} (start : related s t) :
    related (Query.after columns s queries) (Query.after other t queries) := by
  induction queries generalizing s t with
  | nil => exact start
  | cons query rest ih => exact ih (Query.agree_ask lookups query start).2

theorem after_operation (c : SchemaCache σ) (queries : List Query) :
    c.after provider (queries.map Query.operation) =
      Query.after (SchemaCache.columnsFor provider) c queries := by
  rw [SchemaCache.after, List.foldl_map]
  simp only [perform_operation]
  rfl

end Noting

/-- In a session with a new cache, whatever the provider does, noting the lookups and recording the
calls changes neither an answer nor the cache, and the cache is the one that looking up the noted
tables leads to. After each of these lookups, also in the middle of a rendering:
* every lookup so far shows in the log as a hit, as stored or as failed, and the log is no more than
  what they show;
* there is a miss for each call, and each call is reported as stored or as failed;
* the tables reported as stored are those that are cached, each reported once;
* hits and misses make up the lookups, and the failures are those of the lookups. -/
theorem events_account_for_lookups (provider : Provider σ) (source : σ) (queries : List Query) :
    let start := SchemaCache.fresh (source, ([] : List Call))
    let noted := Query.after (.noted provider.recorded) (start, []) queries
    Query.answers (.noted provider.recorded) (start, []) queries =
      (SchemaCache.fresh source).answersTo provider (queries.map Query.operation) ∧
    noted.1.unrecorded =
      (SchemaCache.fresh source).after provider (queries.map Query.operation) ∧
    noted.1 = (start.lookUpEach provider noted.2).2 ∧
    ∀ tables, tables <+: noted.2 →
      let lookups := (start.lookUpEach provider tables).1
      (∀ lookup ∈ lookups, lookup.Shown) ∧
      SchemaCache.Accounts lookups (start.lookUpEach provider tables).2 := by
  intro start noted
  have agree := ColumnLookup.agree_noted provider start
  have related : NotedFrom provider start (start, []) (SchemaCache.fresh source) := ⟨rfl, rfl⟩
  obtain ⟨same, reached⟩ := Query.after_of_agree agree queries related
  refine ⟨?_, ?_, reached, fun tables _ => ⟨start.shown_lookUpEach provider tables, ?_⟩⟩
  · rw [answersTo_operation]
    exact Query.answers_of_agree agree queries related
  · rw [after_operation]
    exact same
  · exact SchemaCache.accounts_lookUpEach provider tables (remembers_fresh source)
      (SchemaCache.accounts_fresh source)

-- A rendering that stops at its second lookup. The table has one column that is listed twice.
example :
    let columns : List Column := [⟨"a", .text, none, true, none⟩, ⟨"a", .integer, none, true, none⟩]
    let queries : List Query :=
      [.render .postgres (.conjunction [.literal .null (some ⟨"t", "b"⟩),
          .literal .null (some ⟨"u", "b"⟩)]), .columnsFor "t"]
    ((SchemaCache.fresh 0).after (.counting columns) (queries.map Query.operation)).log =
      [⟨.debug, "schema cache miss, fetching columns", "t", none, none⟩,
        ⟨.debug, "cached table columns", "t", some 1, none⟩,
        ⟨.debug, "schema cache miss, fetching columns", "u", none, none⟩,
        ⟨.debug, "column fetch failed", "u", none, some "Unknown table: u"⟩,
        ⟨.trace, "schema cache hit", "t", none, none⟩] := by
  decide +kernel

end SqlFragment
