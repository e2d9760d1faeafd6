import Mathlib.Logic.Relation
import SqlFragment.Lookup.Threads
import SqlFragment.Proofs.Lookup.Session

/-!
# One thread among others

What each step of a thread does to the slots that the map leads to, and what a thread does that is
not interrupted: a lookup as on a cache of its own (`uninterrupted_lookup`).
-/

namespace SqlFragment

variable {σ ι : Type}

namespace SharedCache

/-- The slot that the map leads to. -/
def slot? (s : SharedCache σ ι) (table : String) : Option (Slot ι) :=
  (s.tables.get? table).bind fun place => s.slots[place]?

/-- The map leads from a table to a slot of that table. -/
def Placed (s : SharedCache σ ι) : Prop :=
  ∀ table place, s.tables.get? table = some place → s.slots[place]?.map (·.table) = some table

/-! ### What the steps do to slots -/

section Steps

variable {s : SharedCache σ ι} {table other : String} {place : Nat}

theorem placed_fresh (source : σ) : (fresh source : SharedCache σ ι).Placed := nofun

theorem slot?_of_found (found : s.tables.get? table = some place) :
    s.slot? table = s.slots[place]? := by
  unfold slot?
  rw [found]
  rfl

theorem holder?_of_found (found : s.tables.get? table = some place) :
    s.holder? place = (s.slot? table).bind (·.holder) := by
  rw [slot?_of_found found]
  rfl

theorem held?_of_found (found : s.tables.get? table = some place) :
    s.held? place = (s.slot? table).bind (·.columns) := by
  rw [slot?_of_found found]
  rfl

theorem register_of_found (found : s.tables.get? table = some place) :
    s.register table place = s := by
  unfold register
  rw [if_pos]
  rw [Keyed.contains_eq_isSome, found]
  rfl

theorem release_unregister :
    (s.unregister table place).release place = (s.release place).unregister table place := by
  unfold unregister
  by_cases found : s.tables.get? table = some place
  · have still : (s.release place).tables.get? table = some place := found
    rw [if_pos found, if_pos still]
    rfl
  · have still : (s.release place).tables.get? table ≠ some place := found
    rw [if_neg found, if_neg still]

theorem exists_slot (placed : s.Placed) (found : s.tables.get? table = some place) :
    ∃ slot, s.slot? table = some slot ∧ slot.table = table := by
  obtain ⟨slot, there, same⟩ := Option.map_eq_some_iff.mp (placed table place found)
  exact ⟨slot, (slot?_of_found found).trans there, same⟩

theorem place_lt (placed : s.Placed) (found : s.tables.get? table = some place) :
    place < s.slots.length := by
  obtain ⟨slot, there, -⟩ := Option.map_eq_some_iff.mp (placed table place found)
  exact (List.getElem?_eq_some_iff.mp there).1

theorem place_ne (placed : s.Placed) {second : Nat} (ne : other ≠ table)
    (found : s.tables.get? table = some place) (found' : s.tables.get? other = some second) :
    second ≠ place := by
  rintro rfl
  have same := (placed other second found').symm.trans (placed table second found)
  exact ne (Option.some.inj same)

section Change

variable {f : Slot ι → Slot ι}

theorem map_change (keeps : ∀ slot, (f slot).table = slot.table) (s : SharedCache σ ι)
    (place other : Nat) :
    (s.change place f).slots[other]?.map (·.table) = s.slots[other]?.map (·.table) := by
  simp only [change, List.getElem?_modify]
  cases s.slots[other]? with
  | none => rfl
  | some slot => by_cases same : place = other <;> simp [same, keeps]

theorem placed_change (placed : s.Placed) (keeps : ∀ slot, (f slot).table = slot.table) :
    (s.change place f).Placed := by
  intro table there found
  rw [map_change keeps]
  exact placed table there found

theorem slot?_change (placed : s.Placed) (found : s.tables.get? table = some place) :
    (s.change place f).slot? other =
      if other = table then (s.slot? other).map f else s.slot? other := by
  by_cases same : other = table
  · subst other
    rw [if_pos rfl, slot?_of_found found]
    have still : (s.change place f).tables.get? table = some place := found
    rw [slot?_of_found still, change, List.getElem?_modify_eq]
    rfl
  · rw [if_neg same]
    unfold slot?
    show (s.tables.get? other).bind _ = _
    cases found' : s.tables.get? other with
    | none => rfl
    | some second =>
      have apart := place_ne placed same found found'
      exact List.getElem?_modify_ne f s.slots (Ne.symm apart)

end Change

theorem placed_putUp (placed : s.Placed) (table : String) : (s.putUp table).Placed := by
  intro other place found
  simp only [putUp, Keyed.get?_insert] at found
  split at found
  · next same =>
    cases found
    simp [putUp, same]
  · have inside := place_lt placed found
    simp only [putUp, List.getElem?_append_left inside]
    exact placed other place found

theorem slot?_putUp (placed : s.Placed) (table other : String) :
    (s.putUp table).slot? other =
      if other = table then some ⟨table, none, none⟩ else s.slot? other := by
  unfold slot?
  simp only [putUp, Keyed.get?_insert]
  split
  · simp
  · cases found : s.tables.get? other with
    | none => rfl
    | some place =>
      have inside := place_lt placed found
      exact List.getElem?_append_left inside

theorem placed_unregister (placed : s.Placed) (found : s.tables.get? table = some place) :
    (s.unregister table place).Placed := by
  intro other second there
  simp only [unregister, found, if_true] at there ⊢
  by_cases same : other = table
  · rw [same, Keyed.get?_erase_self] at there
    cases there
  · rw [Keyed.get?_erase_of_ne _ same] at there
    exact placed other second there

theorem slot?_unregister (found : s.tables.get? table = some place) :
    (s.unregister table place).slot? other = if other = table then none else s.slot? other := by
  unfold slot?
  simp only [unregister, found, if_true]
  split
  · next same => rw [same, Keyed.get?_erase_self]; rfl
  · next ne => rw [Keyed.get?_erase_of_ne _ ne]

end Steps

/-! ### A thread that is not interrupted -/

def noLock : String → Option ι := fun _ => none

/-- The thread has the lock of the table's slot, and no other is taken. -/
def onlyLock (me : ι) (table : String) : String → Option ι := fun other =>
  if other = table then some me else none

/-- The threads see the slots of `c`, each with the lock that `locks` gives. -/
structure Mirrors (s : SharedCache σ ι) (c : SchemaCache σ) (locks : String → Option ι) : Prop where
  source : s.source = c.source
  events : s.events = c.events
  placed : s.Placed
  slots : ∀ table, s.slot? table = (c.slots.get? table).map fun columns =>
    ⟨table, locks table, columns⟩

namespace Mirrors

variable {s : SharedCache σ ι} {c : SchemaCache σ} {locks : String → Option ι} {table : String}
  {place : Nat}

theorem fresh (source : σ) :
    (SharedCache.fresh source : SharedCache σ ι).Mirrors (.fresh source) noLock :=
  ⟨rfl, rfl, placed_fresh source, fun _ => rfl⟩

theorem record (mirrors : s.Mirrors c locks) (e : Event) : (s.record e).Mirrors (c.record e) locks := by
  obtain ⟨source, events, placed, slots⟩ := mirrors
  exact ⟨source, by rw [SharedCache.record, events]; rfl, placed, slots⟩

theorem source_set (mirrors : s.Mirrors c locks) (source : σ) :
    { s with source }.Mirrors { c with source } locks :=
  ⟨rfl, mirrors.events, mirrors.placed, mirrors.slots⟩

theorem found_iff (mirrors : s.Mirrors c locks) (table : String) :
    (∃ place, s.tables.get? table = some place) ↔ c.slots.contains table := by
  rw [Keyed.contains_eq_isSome]
  have slots := mirrors.slots table
  constructor
  · rintro ⟨place, found⟩
    obtain ⟨slot, there, -⟩ := exists_slot mirrors.placed found
    rw [there] at slots
    obtain ⟨columns, held, -⟩ := Option.map_eq_some_iff.mp slots.symm
    rw [held]
    rfl
  · intro held
    cases found : s.tables.get? table with
    | some place => exact ⟨place, rfl⟩
    | none =>
      obtain ⟨columns, full⟩ := Option.isSome_iff_exists.mp held
      rw [full, slot?, found] at slots
      cases slots

theorem putUp (mirrors : s.Mirrors c locks) (absent : s.tables.get? table = none)
    (free : locks table = none) : (s.putUp table).Mirrors (c.register table) locks := by
  have missing : ¬ c.slots.contains table := by
    rw [← mirrors.found_iff, absent]
    simp
  obtain ⟨source, events, placed, slots⟩ := mirrors
  simp only [SchemaCache.register, missing]
  refine ⟨source, events, placed_putUp placed table, fun other => ?_⟩
  rw [slot?_putUp placed]
  simp only [Bool.false_eq_true, if_false, Keyed.get?_insert]
  split
  · next same => rw [same, ← free]; rfl
  · exact slots other

theorem register_of_found (mirrors : s.Mirrors c locks)
    (found : s.tables.get? table = some place) : c.register table = c :=
  if_pos ((mirrors.found_iff table).mp ⟨place, found⟩)

theorem lock (mirrors : s.Mirrors c noLock) (found : s.tables.get? table = some place) (me : ι) :
    (s.lock me place).Mirrors c (onlyLock me table) := by
  obtain ⟨source, events, placed, slots⟩ := mirrors
  refine ⟨source, events, placed_change placed fun _ => rfl, fun other => ?_⟩
  rw [SharedCache.lock, slot?_change placed found, onlyLock, slots, Option.map_map]
  split <;> rfl

theorem release {me : ι} (mirrors : s.Mirrors c (onlyLock me table))
    (found : s.tables.get? table = some place) : (s.release place).Mirrors c noLock := by
  obtain ⟨source, events, placed, slots⟩ := mirrors
  refine ⟨source, events, placed_change placed fun _ => rfl, fun other => ?_⟩
  rw [SharedCache.release, slot?_change placed found, slots, onlyLock, Option.map_map]
  split <;> rfl

theorem fill (mirrors : s.Mirrors c locks) (found : s.tables.get? table = some place)
    (columns : ColumnMap) : (s.fill place columns).Mirrors (c.fill table columns) locks := by
  have there := (mirrors.found_iff table).mp ⟨place, found⟩
  obtain ⟨source, events, placed, slots⟩ := mirrors
  refine ⟨source, events, placed_change placed fun _ => rfl, fun other => ?_⟩
  rw [SharedCache.fill, slot?_change placed found, slots, SchemaCache.fill, Keyed.get?_insert,
    Option.map_map]
  split
  · next same =>
    rw [Keyed.contains_eq_isSome] at there
    obtain ⟨old, held⟩ := Option.isSome_iff_exists.mp there
    rw [same, held]
    rfl
  · rfl

theorem unregister (mirrors : s.Mirrors c locks) (found : s.tables.get? table = some place) :
    (s.unregister table place).Mirrors (c.unregister table) locks := by
  obtain ⟨source, events, placed, slots⟩ := mirrors
  have kept : (s.unregister table place).source = s.source ∧
      (s.unregister table place).events = s.events := by
    simp [SharedCache.unregister, found]
  refine ⟨kept.1.trans source, kept.2.trans events, placed_unregister placed found, fun other => ?_⟩
  rw [slot?_unregister found, SchemaCache.unregister]
  split
  · next same => rw [same, Keyed.get?_erase_self]; rfl
  · next ne => rw [Keyed.get?_erase_of_ne _ ne, slots]

theorem held? (mirrors : s.Mirrors c locks) (found : s.tables.get? table = some place) :
    s.held? place = c.held? table := by
  rw [held?_of_found found, mirrors.slots, SchemaCache.held?]
  cases c.slots.get? table <;> rfl

theorem holder? (mirrors : s.Mirrors c locks) (found : s.tables.get? table = some place)
    (free : locks table = none) : s.holder? place = none := by
  rw [holder?_of_found found, mirrors.slots, free]
  cases c.slots.get? table <;> rfl

end Mirrors

end SharedCache

/-- The steps of a thread that no other thread comes between. -/
def Thread.Steps (provider : Provider σ) (me : ι) :
    Thread × SharedCache σ ι → Thread × SharedCache σ ι → Prop :=
  Relation.ReflTransGen fun before after => before.1.step provider me before.2 = some after

section Lookup

open Thread
open SharedCache (noLock onlyLock)

variable {provider : Provider σ} {s : SharedCache σ ι} {c : SchemaCache σ} {table : String}
  {place : Nat} {todo : List String} {answers : List (String × Except LookupError ColumnMap)}
  (me : ι)

theorem steps_enter (mirrors : s.Mirrors c noLock) :
    ∃ place s', Steps provider me (⟨table :: todo, .idle, answers⟩, s)
        (⟨todo, .inside table place .waiting, answers⟩, s') ∧
      s'.tables.get? table = some place ∧ s'.Mirrors (c.register table) noLock := by
  cases found : s.tables.get? table with
  | some place =>
    have enters : Thread.step provider me ⟨table :: todo, .idle, answers⟩ s =
        some (⟨todo, .inside table place .waiting, answers⟩, s) := by
      simp only [Thread.step, found]
    refine ⟨place, s, .head enters .refl, found, ?_⟩
    rw [mirrors.register_of_found found]
    exact mirrors
  | none =>
    have misses : Thread.step provider me ⟨table :: todo, .idle, answers⟩ s =
        some (⟨todo, .creating table, answers⟩, s) := by
      simp only [Thread.step, found]
    have creates : Thread.step provider me ⟨todo, .creating table, answers⟩ s =
        some (⟨todo, .inside table s.slots.length .waiting, answers⟩, s.putUp table) := by
      simp only [Thread.step, found]
    refine ⟨s.slots.length, s.putUp table, .head misses (.head creates .refl), ?_,
      mirrors.putUp found rfl⟩
    exact Keyed.get?_insert_self ..

theorem steps_release {result : Except LookupError ColumnMap}
    (freed : (s.release place).Mirrors c noLock) :
    ∃ s', Steps provider me (⟨todo, .inside table place (.releasing result), answers⟩, s)
        (⟨todo, .idle, answers ++ [(table, result)]⟩, s') ∧ s'.Mirrors c noLock :=
  ⟨s.release place, .head rfl .refl, freed⟩

theorem step_registering {columns : ColumnMap} (found : s.tables.get? table = some place) :
    Thread.step provider me ⟨todo, .inside table place (.registering columns), answers⟩ s =
      some (⟨todo, .inside table place (.releasing (.ok columns)), answers⟩, s) := by
  simp only [Thread.step, Thread.stepInside, SharedCache.register_of_found found]

theorem steps_fetch (found : s.tables.get? table = some place)
    (mirrors : s.Mirrors c (onlyLock me table)) :
    ∃ s', Steps provider me (⟨todo, .inside table place .calling, answers⟩, s)
        (⟨todo, .idle, answers ++ [(table, (c.fetch provider table).1)]⟩, s') ∧
      s'.Mirrors (c.fetch provider table).2 noLock := by
  unfold SchemaCache.fetch
  rcases asked : (provider table).run.run c.source with ⟨x | listed, source⟩
  · have calls : Thread.step provider me ⟨todo, .inside table place .calling, answers⟩ s =
        some (⟨todo, .inside table place (.removing x), answers⟩,
          { s with source }.record (.failed table x)) := by
      simp only [Thread.step, Thread.stepInside, mirrors.source, asked]
    have failed := (mirrors.source_set source).record (.failed table x)
    -- It makes no difference that the slot is taken down before its lock is released.
    have freed := (failed.release found).unregister found
    rw [← SharedCache.release_unregister] at freed
    obtain ⟨s', leaves, free⟩ := steps_release me freed
    exact ⟨s', .head calls (.head rfl leaves), free⟩
  · have calls : Thread.step provider me ⟨todo, .inside table place .calling, answers⟩ s =
        some (⟨todo, .inside table place (.storing (ColumnMap.ofList listed)), answers⟩,
          { s with source }.record (.stored table (ColumnMap.ofList listed).size)) := by
      simp only [Thread.step, Thread.stepInside, mirrors.source, asked]
    have stored := (mirrors.source_set source).record
      (.stored table (ColumnMap.ofList listed).size)
    have filled := stored.fill found (ColumnMap.ofList listed)
    obtain ⟨s', leaves, free⟩ := steps_release me (filled.release found)
    exact ⟨s', .head calls (.head rfl (.head (step_registering me found) leaves)), free⟩

theorem steps_inside (found : s.tables.get? table = some place) (mirrors : s.Mirrors c noLock) :
    let lookup : Except LookupError ColumnMap × SchemaCache σ := match c.held? table with
      | some columns => (.ok columns, c.record (.hit table))
      | none => (c.record (.miss table)).fetch provider table
    ∃ s', Steps provider me (⟨todo, .inside table place .waiting, answers⟩, s)
        (⟨todo, .idle, answers ++ [(table, lookup.1)]⟩, s') ∧ s'.Mirrors lookup.2 noLock := by
  have locks : Thread.step provider me ⟨todo, .inside table place .waiting, answers⟩ s =
      some (⟨todo, .inside table place .testing, answers⟩, s.lock me place) := by
    simp only [Thread.step, Thread.stepInside, mirrors.holder? found rfl]
  have locked := mirrors.lock found me
  have seen := locked.held? found
  cases held : c.held? table with
  | some columns =>
    have hits : Thread.step provider me ⟨todo, .inside table place .testing, answers⟩
        (s.lock me place) =
        some (⟨todo, .inside table place (.releasing (.ok columns)), answers⟩,
          (s.lock me place).record (.hit table)) := by
      simp only [Thread.step, Thread.stepInside, seen, held]
    obtain ⟨s', leaves, free⟩ := steps_release me ((locked.record (.hit table)).release found)
    exact ⟨s', .head locks (.head hits leaves), free⟩
  | none =>
    have misses : Thread.step provider me ⟨todo, .inside table place .testing, answers⟩
        (s.lock me place) =
        some (⟨todo, .inside table place .calling, answers⟩,
          (s.lock me place).record (.miss table)) := by
      simp only [Thread.step, Thread.stepInside, seen, held]
    obtain ⟨s', fetches, free⟩ := steps_fetch (s := (s.lock me place).record (.miss table)) me
      found (locked.record (.miss table))
    exact ⟨s', .head locks (.head misses fetches), free⟩

/-- A thread that is not interrupted does a lookup as `columnsFor` does: it is given the same answer,
and leaves behind the same slots, the same log and the provider in the same state. -/
theorem steps_lookup (provider : Provider σ) (todo : List String)
    (answers : List (String × Except LookupError ColumnMap)) (mirrors : s.Mirrors c noLock) :
    let lookup := (SchemaCache.columnsFor provider table).run.run c
    ∃ s', Steps provider me (⟨table :: todo, .idle, answers⟩, s)
        (⟨todo, .idle, answers ++ [(table, lookup.1)]⟩, s') ∧ s'.Mirrors lookup.2 noLock := by
  obtain ⟨place, entered, enters, found, registered⟩ := steps_enter me mirrors
  obtain ⟨s', inside, left⟩ := steps_inside me found registered
  exact ⟨s', enters.trans inside, left⟩

theorem steps_workload (provider : Provider σ) (todo : List String)
    (answers : List (String × Except LookupError ColumnMap)) (mirrors : s.Mirrors c noLock) :
    ∃ given s', Steps provider me (⟨todo, .idle, answers⟩, s) (⟨[], .idle, answers ++ given⟩, s') ∧
      given.map (·.1) = todo ∧
      given.map (.columns ·.2) = c.answersTo provider (todo.map .columnsFor) := by
  induction todo generalizing s c answers with
  | nil => exact ⟨[], s, by rw [List.append_nil]; exact .refl, rfl, rfl⟩
  | cons table todo ih =>
    obtain ⟨between, first, left⟩ := steps_lookup me provider todo answers mirrors
    obtain ⟨given, s', others, tables, same⟩ := ih _ left
    rw [List.append_assoc] at others
    refine ⟨_, s', first.trans others, ?_, ?_⟩
    · rw [List.singleton_append, List.map_cons, tables]
    · rw [List.singleton_append, List.map_cons, same]
      rfl

end Lookup

/-! ### Turns -/

section Turns

variable [DecidableEq ι] {provider : Provider σ} {me : ι} {m : Machine σ ι} {t t' : Thread}
  {s s' : SharedCache σ ι}

theorem turn_of_step (h : (m.threads me).step provider me m.shared = some (t, s)) :
    m.turn provider me = m.moved me t s := by
  unfold Machine.turn
  rw [h]

theorem turn_of_none (h : (m.threads me).step provider me m.shared = none) :
    m.turn provider me = m := by
  unfold Machine.turn
  rw [h]

theorem moved_self (m : Machine σ ι) (me : ι) : m.moved me (m.threads me) m.shared = m := by
  have same : (fun i => if i = me then m.threads me else m.threads i) = m.threads := by
    funext i
    split
    · next here => rw [here]
    · rfl
  unfold Machine.moved
  rw [same]

theorem moved_moved : (m.moved me t s).moved me t' s' = m.moved me t' s' := by
  unfold Machine.moved
  congr 1
  funext i
  by_cases here : i = me <;> simp [here]

theorem run_of_steps {start last : Thread × SharedCache σ ι}
    (steps : Thread.Steps provider me start last) :
    ∃ n, (m.moved me start.1 start.2).run provider (List.replicate n me) =
      m.moved me last.1 last.2 := by
  -- By induction from the end: the first step is the first turn.
  induction steps using Relation.ReflTransGen.head_induction_on with
  | refl => exact ⟨0, rfl⟩
  | @head before between first _ ih =>
    obtain ⟨n, runs⟩ := ih
    have turn : (m.moved me before.1 before.2).turn provider me = m.moved me between.1 between.2 := by
      rw [turn_of_step (m := m.moved me before.1 before.2) (by simpa [Machine.moved] using first),
        moved_moved]
    refine ⟨n + 1, ?_⟩
    rw [List.replicate_succ, Machine.run, List.foldl_cons, turn]
    exact runs

end Turns

/-- A thread that has all turns to itself comes to its end, with the answers that its lookups get
one after the other from a cache of its own. -/
theorem uninterrupted_workload [DecidableEq ι] (provider : Provider σ) (source : σ)
    (workloads : ι → List String) (me : ι) :
    ∃ n given, ((Machine.start source workloads).run provider (List.replicate n me)).threads me =
        ⟨[], .idle, given⟩ ∧
      given.map (·.1) = workloads me ∧
      given.map (.columns ·.2) =
        (SchemaCache.fresh source).answersTo provider ((workloads me).map .columnsFor) := by
  obtain ⟨given, s', steps, tables, same⟩ :=
    steps_workload me provider (workloads me) [] (SharedCache.Mirrors.fresh source)
  have alone : Thread.Steps provider me
      ((Machine.start source workloads).threads me, (Machine.start source workloads).shared)
      (⟨[], .idle, given⟩, s') := steps
  obtain ⟨n, runs⟩ := run_of_steps (m := Machine.start source workloads) alone
  rw [moved_self] at runs
  refine ⟨n, given, ?_, tables, same⟩
  rw [runs]
  exact if_pos rfl

end SqlFragment
