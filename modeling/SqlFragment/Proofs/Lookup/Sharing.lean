import Mathlib.Data.List.Nodup
import SqlFragment.Proofs.Lookup.Threads
import SqlFragment.Proofs.Lookup.Transparency

/-!
# Threads that share one fetch

Any number of threads on one cache, over a provider that never fails, in any order of their steps.
Only the thread that has the lock of a slot changes it or calls the provider for its table, so what
the other threads rely on stays (`Respects`). Main statement: the provider is called at most once for
each table, and every lookup of the table gives out what that call listed (`threads_share_fetch`).
-/

namespace SqlFragment

variable {σ ι : Type}

/-- From `source` on, no call of the provider fails, whatever it was called for before. -/
def Provider.NeverFails (provider : Provider σ) (source : σ) : Prop :=
  ∀ s, provider.Reaches source s → ∀ table, ∃ listed, ((provider table).run.run s).1 = .ok listed

/-- How far the threads have come with a table, by its slot and what the provider has answered for
it. What it has listed is in the slot, or with the thread that has the lock. -/
inductive Progress : Option (Slot ι) → List (Except LookupError (List Column)) → Prop where
  | untouched : Progress none []
  | empty {slot : Slot ι} (nothing : slot.columns = none) : Progress (some slot) []
  | fetched {slot : Slot ι} {listed : List Column} (nothing : slot.columns = none)
      (locked : slot.holder ≠ none) : Progress (some slot) [.ok listed]
  | filled {slot : Slot ι} {listed : List Column}
      (full : slot.columns = some (ColumnMap.ofList listed)) : Progress (some slot) [.ok listed]

namespace Progress

variable {slot : Slot ι} {slot? : Option (Slot ι)} {given : List (Except LookupError (List Column))}

theorem length_le (progress : Progress slot? given) : given.length ≤ 1 := by
  cases progress <;> simp

theorem of_none (progress : Progress (none : Option (Slot ι)) given) : given = [] := by
  cases progress
  rfl

theorem of_empty (progress : Progress (some slot) given) (free : slot.holder = none)
    (nothing : slot.columns = none) : given = [] := by
  cases progress with
  | empty => rfl
  | fetched _ locked => exact absurd free locked
  | filled full => cases nothing.symm.trans full

theorem of_full (progress : Progress (some slot) given) {columns : ColumnMap}
    (full : slot.columns = some columns) :
    ∃ listed, given = [.ok listed] ∧ columns = ColumnMap.ofList listed := by
  cases progress with
  | empty nothing | fetched nothing => cases nothing.symm.trans full
  | filled same =>
    cases same.symm.trans full
    exact ⟨_, rfl, rfl⟩

theorem lock (progress : Progress (some slot) given) (me : ι) :
    Progress (some { slot with holder := some me }) given := by
  cases progress with
  | empty nothing => exact .empty nothing
  | fetched nothing => exact .fetched nothing nofun
  | filled full => exact .filled full

end Progress

namespace SharedCache

/-- What the provider has answered for the table. -/
def given (s : SharedCache (σ × List Call) ι) (table : String) :
    List (Except LookupError (List Column)) :=
  Call.answers s.source.2 table

def Holds (s : SharedCache σ ι) (table : String) (columns : ColumnMap) : Prop :=
  ∃ slot, s.slot? table = some slot ∧ slot.columns = some columns

/-- A lookup can have ended with these columns: they are held for its table. -/
def Gives (s : SharedCache σ ι) (answer : String × Except LookupError ColumnMap) : Prop :=
  ∃ columns, s.Holds answer.1 columns ∧ answer.2 = .ok columns

structure Sound (provider : Provider σ) (source : σ) (s : SharedCache (σ × List Call) ι) : Prop where
  reached : provider.Reaches source s.source.1
  placed : s.Placed
  /-- The map leads to every slot that was ever put up. -/
  known : ∀ place slot, s.slots[place]? = some slot → s.tables.get? slot.table = some place
  progress : ∀ table, Progress (s.slot? table) (s.given table)

/-- What the other threads rely on when `me` takes a step: slots stay where they are and keep their
columns, and a slot that another thread has locked stays as it is, with no call for its table. -/
structure Respects (me : ι) (s s' : SharedCache (σ × List Call) ι) : Prop where
  places : ∀ table place, s.tables.get? table = some place → s'.tables.get? table = some place
  columns : ∀ table columns, s.Holds table columns → s'.Holds table columns
  locked : ∀ table slot other, s.slot? table = some slot → slot.holder = some other → other ≠ me →
    s'.slot? table = some slot ∧ s'.given table = s.given table

end SharedCache

open SharedCache

/-- What the thread that has the lock of the slot knows of it. -/
def Stage.Sound (slot : Slot ι) (given : List (Except LookupError (List Column))) : Stage → Prop
  | waiting => False
  | testing => slot.columns = none → given = []
  | calling => slot.columns = none ∧ given = []
  | storing columns =>
    slot.columns = none ∧ ∃ listed, given = [.ok listed] ∧ columns = ColumnMap.ofList listed
  | registering columns => slot.columns = some columns
  | removing _ => False
  | releasing result => ∃ columns, slot.columns = some columns ∧ result = .ok columns

def Phase.Sound (me : ι) (s : SharedCache (σ × List Call) ι) : Phase → Prop
  | idle => True
  | creating _ => True
  | inside table place stage => s.tables.get? table = some place ∧
    (stage = .waiting ∨
      ∃ slot, s.slot? table = some slot ∧ slot.holder = some me ∧ stage.Sound slot (s.given table))

structure Thread.Sound (me : ι) (s : SharedCache (σ × List Call) ι) (t : Thread) : Prop where
  phase : t.phase.Sound me s
  answers : ∀ answer ∈ t.answers, s.Gives answer

structure Machine.Sound (provider : Provider σ) (source : σ) (m : Machine (σ × List Call) ι) :
    Prop where
  shared : m.shared.Sound provider source
  threads : ∀ i, (m.threads i).Sound i m.shared

/-! ### What other threads rely on -/

section Stability

variable {me : ι} {s s' : SharedCache (σ × List Call) ι}

theorem respects_refl (me : ι) (s : SharedCache (σ × List Call) ι) : Respects me s s where
  places _ _ found := found
  columns _ _ holds := holds
  locked _ _ _ there _ _ := ⟨there, rfl⟩

theorem gives_of_respects (respects : Respects me s s') {answer : String × Except LookupError ColumnMap}
    (gives : s.Gives answer) : s'.Gives answer := by
  obtain ⟨columns, holds, same⟩ := gives
  exact ⟨columns, respects.columns answer.1 columns holds, same⟩

theorem sound_of_respects {other : ι} {t : Thread} (respects : Respects me s s') (ne : other ≠ me)
    (sound : t.Sound other s) : t.Sound other s' := by
  obtain ⟨phase, answers⟩ := sound
  constructor
  · cases reached : t.phase with
    | idle => trivial
    | creating table => trivial
    | inside table place stage =>
      rw [reached] at phase
      obtain ⟨found, stands⟩ := phase
      refine ⟨respects.places table place found, ?_⟩
      rcases stands with waits | ⟨slot, there, mine, knows⟩
      · exact Or.inl waits
      · obtain ⟨still, same⟩ := respects.locked table slot other there mine ne
        rw [← same] at knows
        exact Or.inr ⟨slot, still, mine, knows⟩
  · intro answer member
    exact gives_of_respects respects (answers answer member)

end Stability

/-- What a step of `me` has to ensure: the shared part stays sound, the other threads can go on, and
the thread knows what it should at its new place and was given nothing but what is held. -/
structure Proceeds (provider : Provider σ) (source : σ) (me : ι) (t : Thread)
    (s : SharedCache (σ × List Call) ι) (t' : Thread) (s' : SharedCache (σ × List Call) ι) : Prop where
  shared : s'.Sound provider source
  respects : Respects me s s'
  phase : t'.phase.Sound me s'
  answers : ∀ answer ∈ t'.answers, answer ∈ t.answers ∨ s'.Gives answer

/-! ### The steps -/

section Steps

variable {provider : Provider σ} {source : σ} {me : ι} {s : SharedCache (σ × List Call) ι}
  {table : String} {place : Nat} {slot : Slot ι}

theorem progress_of_slot (sound : s.Sound provider source) (there : s.slot? table = some slot) :
    Progress (some slot) (s.given table) := by
  rw [← there]
  exact sound.progress table

theorem only_holder (mine : slot.holder = some me) : ∀ other, slot.holder = some other → other = me := by
  intro other locked
  exact Option.some.inj (locked.symm.trans mine)

theorem sound_record (sound : s.Sound provider source) (e : Event) :
    (s.record e).Sound provider source :=
  ⟨sound.reached, sound.placed, sound.known, sound.progress⟩

theorem respects_record (e : Event) : Respects me s (s.record e) where
  places _ _ found := found
  columns _ _ holds := holds
  locked _ _ _ there _ _ := ⟨there, rfl⟩

/-! #### Putting up a slot -/

theorem ne_of_absent {other : String} (absent : s.tables.get? table = none)
    (found : s.tables.get? other = some place) : other ≠ table := by
  rintro rfl
  rw [absent] at found
  cases found

theorem slot?_of_absent (absent : s.tables.get? table = none) : s.slot? table = none := by
  unfold slot?
  rw [absent]
  rfl

theorem sound_putUp (sound : s.Sound provider source) (absent : s.tables.get? table = none) :
    (s.putUp table).Sound provider source := by
  refine ⟨sound.reached, placed_putUp sound.placed table, fun place slot there => ?_, fun other => ?_⟩
  · simp only [putUp, Keyed.get?_insert] at there ⊢
    by_cases old : place < s.slots.length
    · rw [List.getElem?_append_left old] at there
      have found := sound.known place slot there
      rw [if_neg (ne_of_absent absent found)]
      exact found
    · have last := (List.getElem?_eq_some_iff.mp there).1
      have new : place = s.slots.length := by
        simp only [List.length_append, List.length_singleton] at last
        omega
      subst new
      rw [List.getElem?_concat_length] at there
      cases there
      exact if_pos rfl
  · have before := sound.progress other
    rw [slot?_putUp sound.placed]
    split
    · next same =>
      subst same
      rw [slot?_of_absent absent] at before
      have unasked : (s.putUp other).given other = [] := before.of_none
      rw [unasked]
      exact .empty rfl
    · exact before

theorem respects_putUp (sound : s.Sound provider source) (absent : s.tables.get? table = none) :
    Respects me s (s.putUp table) := by
  have kept : ∀ other slot, s.slot? other = some slot → (s.putUp table).slot? other = some slot := by
    intro other slot there
    rw [slot?_putUp sound.placed, if_neg]
    · exact there
    · rintro rfl
      rw [slot?_of_absent absent] at there
      cases there
  refine ⟨fun other place found => ?_, ?_, fun other slot _ there _ _ => ⟨kept other slot there, rfl⟩⟩
  · simp only [putUp, Keyed.get?_insert, if_neg (ne_of_absent absent found)]
    exact found
  · rintro other columns ⟨slot, there, full⟩
    exact ⟨slot, kept other slot there, full⟩

/-! #### Changing a slot -/

section Change

variable {f : Slot ι → Slot ι} (sound : s.Sound provider source)
  (found : s.tables.get? table = some place) (there : s.slot? table = some slot)

include sound found there

theorem slot?_changed : (s.change place f).slot? table = some (f slot) := by
  rw [slot?_change sound.placed found, if_pos rfl, there]
  rfl

theorem sound_change (keeps : ∀ slot, (f slot).table = slot.table)
    (progress : Progress (some (f slot)) (s.given table)) :
    (s.change place f).Sound provider source := by
  refine ⟨sound.reached, placed_change sound.placed keeps, fun other slot there => ?_, fun other => ?_⟩
  · have same := map_change keeps s place other
    rw [there] at same
    obtain ⟨old, before, name⟩ := Option.map_eq_some_iff.mp same.symm
    have found := sound.known other old before
    rw [name] at found
    exact found
  · have before := sound.progress other
    show Progress _ (s.given other)
    rw [slot?_change sound.placed found]
    split
    · next same =>
      rw [same, there]
      exact progress
    · exact before

theorem respects_change (mine : ∀ other, slot.holder = some other → other = me)
    (kept : ∀ columns, slot.columns = some columns → (f slot).columns = some columns) :
    Respects me s (s.change place f) := by
  refine ⟨fun _ _ found => found, ?_, ?_⟩
  · rintro other columns ⟨old, before, full⟩
    unfold Holds
    rw [slot?_change sound.placed found]
    by_cases same : other = table
    · subst other
      cases there.symm.trans before
      exact ⟨f slot, by rw [if_pos rfl, there]; rfl, kept columns full⟩
    · exact ⟨old, by rw [if_neg same, before], full⟩
  · intro other old thread before locked ne
    refine ⟨?_, rfl⟩
    rw [slot?_change sound.placed found]
    by_cases same : other = table
    · subst other
      cases there.symm.trans before
      exact absurd (mine thread locked) ne
    · rw [if_neg same, before]

end Change

/-! #### Calling the provider -/

section Calling

variable {listed : List Column} {answered : σ} (there : s.slot? table = some slot)

theorem given_append (s : SharedCache (σ × List Call) ι) (answered : σ)
    (answer : Except LookupError (List Column)) (table other : String) :
    ({ s with source := (answered, s.source.2 ++ [⟨table, answer⟩]) } :
        SharedCache (σ × List Call) ι).given other =
      s.given other ++ if table = other then [answer] else [] := by
  unfold given
  rw [Call.answers_append, Call.answers_singleton]

include there

theorem sound_called (sound : s.Sound provider source)
    (asked : (provider table).run.run s.source.1 = (.ok listed, answered))
    (nothing : slot.columns = none) (locked : slot.holder ≠ none) (unasked : s.given table = []) :
    ({ s with source := (answered, s.source.2 ++ [⟨table, .ok listed⟩]) } :
      SharedCache (σ × List Call) ι).Sound provider source := by
  have reached := sound.reached.call table
  rw [asked] at reached
  refine ⟨reached, sound.placed, sound.known, fun other => ?_⟩
  show Progress (s.slot? other) _
  rw [given_append]
  by_cases same : table = other
  · subst other
    rw [if_pos rfl, unasked, there]
    exact .fetched nothing locked
  · rw [if_neg same, List.append_nil]
    exact sound.progress other

theorem respects_called (mine : slot.holder = some me) (answered : σ)
    (answer : Except LookupError (List Column)) :
    Respects me s { s with source := (answered, s.source.2 ++ [⟨table, answer⟩]) } := by
  refine ⟨fun _ _ found => found, fun _ _ holds => holds, fun other old thread before taken ne => ?_⟩
  refine ⟨before, ?_⟩
  rw [given_append, if_neg, List.append_nil]
  -- The table of the call is locked by the caller itself.
  rintro rfl
  cases there.symm.trans before
  rw [mine] at taken
  cases taken
  exact ne rfl

end Calling

/-! #### One step -/

variable {t : Thread} (sound : s.Sound provider source)

include sound

theorem proceeds_unchanged {todo : List String} {phase : Phase} (knows : phase.Sound me s) :
    Proceeds provider source me t s ⟨todo, phase, t.answers⟩ s :=
  ⟨sound, respects_refl me s, knows, fun _ => Or.inl⟩

theorem proceeds_putUp (absent : s.tables.get? table = none) :
    Proceeds provider source me t s
      { t with phase := .inside table s.slots.length .waiting } (s.putUp table) := by
  refine ⟨sound_putUp sound absent, respects_putUp sound absent, ⟨?_, Or.inl rfl⟩, ?_⟩
  · exact Keyed.get?_insert_self ..
  · exact fun _ => Or.inl

section Inside

variable (found : s.tables.get? table = some place) (there : s.slot? table = some slot)

include found there

theorem proceeds_change {f : Slot ι → Slot ι} {next : Stage}
    (keeps : ∀ slot, (f slot).table = slot.table)
    (mine : ∀ other, slot.holder = some other → other = me)
    (kept : ∀ columns, slot.columns = some columns → (f slot).columns = some columns)
    (progress : Progress (some (f slot)) (s.given table)) (locked : (f slot).holder = some me)
    (knows : next.Sound (f slot) (s.given table)) :
    Proceeds provider source me t s { t with phase := .inside table place next }
      (s.change place f) := by
  refine ⟨sound_change sound found there keeps progress,
    respects_change sound found there mine kept, ⟨found, Or.inr ?_⟩, fun _ => Or.inl⟩
  exact ⟨f slot, slot?_changed sound found there, locked, knows⟩

theorem proceeds_lock (free : slot.holder = none) :
    Proceeds provider source me t s { t with phase := .inside table place .testing }
      (s.lock me place) := by
  have before := progress_of_slot sound there
  apply proceeds_change (f := fun slot => { slot with holder := some me }) sound found there
    (fun _ => rfl) _ (fun _ => id) _ rfl
  · exact before.of_empty free
  · intro other locked
    rw [free] at locked
    cases locked
  · exact before.lock me

variable (mine : slot.holder = some me)

include mine

theorem proceeds_record {next : Stage} (e : Event) (knows : next.Sound slot (s.given table)) :
    Proceeds provider source me t s { t with phase := .inside table place next } (s.record e) :=
  ⟨sound_record sound e, respects_record e, ⟨found, Or.inr ⟨slot, there, mine, knows⟩⟩,
    fun _ => Or.inl⟩

theorem proceeds_call (never : provider.NeverFails source)
    (knows : Stage.Sound slot (s.given table) .calling) {t' : Thread}
    {s' : SharedCache (σ × List Call) ι}
    (step : t.stepInside provider.recorded me table place s .calling = some (t', s')) :
    Proceeds provider source me t s t' s' := by
  obtain ⟨nothing, unasked⟩ := knows
  obtain ⟨listed, answer⟩ := never s.source.1 sound.reached table
  rcases asked : (provider table).run.run s.source.1 with ⟨result, answered⟩
  rw [asked] at answer
  cases answer
  simp only [Thread.stepInside, run_recorded asked] at step
  cases step
  have locked : slot.holder ≠ none := by simp [mine]
  have called := sound_called there sound asked nothing locked unasked
  have respects := respects_called there mine answered (.ok listed)
  refine ⟨sound_record called _, ?_, ?_, fun _ => Or.inl⟩
  · exact ⟨respects.places, respects.columns, respects.locked⟩
  · refine ⟨found, Or.inr ⟨slot, there, mine, nothing, listed, ?_, rfl⟩⟩
    exact (given_append s answered (.ok listed) table table).trans (by simp [unasked])

theorem proceeds_fill {columns : ColumnMap}
    (knows : Stage.Sound slot (s.given table) (.storing columns)) :
    Proceeds provider source me t s { t with phase := .inside table place (.registering columns) }
      (s.fill place columns) := by
  obtain ⟨nothing, listed, answered, rfl⟩ := knows
  apply proceeds_change (f := fun slot => { slot with columns := some (ColumnMap.ofList listed) })
    sound found there (fun _ => rfl) _ _ _ mine
  · exact rfl
  · exact only_holder mine
  · intro columns full
    cases nothing.symm.trans full
  · rw [answered]
    exact .filled rfl

theorem proceeds_release {result : Except LookupError ColumnMap}
    (knows : Stage.Sound slot (s.given table) (.releasing result)) :
    Proceeds provider source me t s
      { t with phase := .idle, answers := t.answers ++ [(table, result)] } (s.release place) := by
  obtain ⟨columns, full, rfl⟩ := knows
  have before := progress_of_slot sound there
  refine ⟨?_, ?_, trivial, fun answer member => ?_⟩
  · apply sound_change (f := fun slot => { slot with holder := none }) sound found there fun _ => rfl
    obtain ⟨listed, answered, rfl⟩ := before.of_full full
    rw [answered]
    exact .filled full
  · apply respects_change (f := fun slot => { slot with holder := none }) sound found there _
      fun _ => id
    exact only_holder mine
  · rcases List.mem_append.mp member with old | new
    · exact Or.inl old
    · rw [List.mem_singleton.mp new]
      exact Or.inr ⟨columns, ⟨_, slot?_changed sound found there, full⟩, rfl⟩

/-- With the lock of its slot a thread proceeds at every stage. -/
theorem proceeds_inside (never : provider.NeverFails source) {stage : Stage}
    (knows : stage.Sound slot (s.given table)) {t' : Thread} {s' : SharedCache (σ × List Call) ι}
    (step : t.stepInside provider.recorded me table place s stage = some (t', s')) :
    Proceeds provider source me t s t' s' := by
  cases stage with
  | waiting | removing => exact knows.elim
  | calling => exact proceeds_call sound found there mine never knows step
  | testing =>
    have held := held?_of_found found
    rw [there] at held
    cases full : slot.columns with
    | none =>
      have empty : s.held? place = none := held.trans full
      simp only [Thread.stepInside, empty] at step
      cases step
      exact proceeds_record sound found there mine _ ⟨full, knows full⟩
    | some columns =>
      have here : s.held? place = some columns := held.trans full
      simp only [Thread.stepInside, here] at step
      cases step
      exact proceeds_record sound found there mine _ ⟨columns, full, rfl⟩
  | storing columns =>
    cases step
    exact proceeds_fill sound found there mine knows
  | registering columns =>
    simp only [Thread.stepInside, register_of_found found] at step
    cases step
    apply proceeds_unchanged sound
    exact ⟨found, Or.inr ⟨slot, there, mine, columns, knows, rfl⟩⟩
  | releasing result =>
    cases step
    exact proceeds_release sound found there mine knows

end Inside

/-- Every step of a thread proceeds. -/
theorem proceeds_step (never : provider.NeverFails source) (knows : t.Sound me s) {t' : Thread}
    {s' : SharedCache (σ × List Call) ι}
    (step : t.step provider.recorded me s = some (t', s')) : Proceeds provider source me t s t' s' := by
  obtain ⟨todo, phase, answers⟩ := t
  cases phase with
  | idle =>
    cases todo with
    | nil => cases step
    | cons table rest =>
      cases found : s.tables.get? table with
      | some place =>
        simp only [Thread.step, found] at step
        cases step
        exact proceeds_unchanged sound ⟨found, Or.inl rfl⟩
      | none =>
        simp only [Thread.step, found] at step
        cases step
        exact proceeds_unchanged sound trivial
  | creating table =>
    cases found : s.tables.get? table with
    | some place =>
      simp only [Thread.step, found] at step
      cases step
      exact proceeds_unchanged sound ⟨found, Or.inl rfl⟩
    | none =>
      simp only [Thread.step, found] at step
      cases step
      exact proceeds_putUp sound found
  | inside table place stage =>
    obtain ⟨found, stands⟩ := knows.phase
    rcases stands with waits | ⟨slot, there, mine, knows⟩
    · subst waits
      obtain ⟨slot, there, -⟩ := exists_slot sound.placed found
      have holder := holder?_of_found found
      rw [there] at holder
      cases free : slot.holder with
      | some other =>
        have taken : s.holder? place = some other := holder.trans free
        simp only [Thread.step, Thread.stepInside, taken] at step
        cases step
      | none =>
        have vacant : s.holder? place = none := holder.trans free
        simp only [Thread.step, Thread.stepInside, vacant] at step
        cases step
        exact proceeds_lock sound found there free
    · exact proceeds_inside sound found there mine never knows step

end Steps

section Turns

variable [DecidableEq ι] {provider : Provider σ} {source : σ} {m : Machine (σ × List Call) ι}

theorem sound_moved {me : ι} {t : Thread} {s : SharedCache (σ × List Call) ι}
    (sound : m.Sound provider source)
    (proceeds : Proceeds provider source me (m.threads me) m.shared t s) :
    (m.moved me t s).Sound provider source := by
  obtain ⟨shared, respects, phase, answers⟩ := proceeds
  refine ⟨shared, fun i => ?_⟩
  by_cases here : i = me
  · subst here
    have moved : (m.moved i t s).threads i = t := if_pos rfl
    rw [moved]
    refine ⟨phase, fun answer member => ?_⟩
    rcases answers answer member with old | new
    · exact gives_of_respects respects ((sound.threads i).answers answer old)
    · exact new
  · have kept : (m.moved me t s).threads i = m.threads i := if_neg here
    rw [kept]
    exact sound_of_respects respects here (sound.threads i)

theorem sound_turn (never : provider.NeverFails source) (sound : m.Sound provider source) (me : ι) :
    (m.turn provider.recorded me).Sound provider source := by
  cases step : (m.threads me).step provider.recorded me m.shared with
  | none =>
    rw [turn_of_none step]
    exact sound
  | some next =>
    rw [turn_of_step step]
    exact sound_moved sound (proceeds_step sound.shared never (sound.threads me) step)

omit [DecidableEq ι] in
theorem sound_start (provider : Provider σ) (source : σ) (workloads : ι → List String) :
    (Machine.start (source, []) workloads).Sound provider source := by
  refine ⟨⟨.start, placed_fresh _, nofun, fun _ => .untouched⟩, fun i => ⟨trivial, nofun⟩⟩

theorem sound_run (never : provider.NeverFails source) (sound : m.Sound provider source)
    (schedule : List ι) : (m.run provider.recorded schedule).Sound provider source := by
  induction schedule generalizing m with
  | nil => exact sound
  | cons me rest ih => exact ih (sound_turn never sound me)

end Turns

/-! ### What the threads share -/

section Sharing

variable {provider : Provider σ} {source : σ} {s : SharedCache (σ × List Call) ι} {table : String}
  (sound : s.Sound provider source)

include sound

theorem nodup_slots : (s.slots.map (·.table)).Nodup := by
  rw [List.nodup_iff_getElem?_ne_getElem?]
  intro first second before inside same
  rw [List.length_map] at inside
  rw [List.getElem?_map, List.getElem?_map] at same
  obtain ⟨slot, there⟩ : ∃ slot, s.slots[second]? = some slot :=
    ⟨s.slots[second], List.getElem?_eq_getElem inside⟩
  rw [there] at same
  obtain ⟨other, there', name⟩ := Option.map_eq_some_iff.mp same
  have found := sound.known second slot there
  have found' := sound.known first other there'
  rw [name] at found'
  cases found.symm.trans found'
  omega

theorem given_of_holds {columns : ColumnMap} (holds : s.Holds table columns) :
    ∃ listed, s.given table = [.ok listed] ∧ columns = ColumnMap.ofList listed := by
  obtain ⟨slot, there, full⟩ := holds
  exact (progress_of_slot sound there).of_full full

end Sharing

/-- Threads on one cache, over a provider that does not fail, in any order of their steps: no table
has two slots, the provider is called at most once for each table, threads inside a lookup of a table
work on the slot that the map leads to, and every lookup that came to its end gives out what the one
call for its table listed. -/
theorem threads_share_fetch [DecidableEq ι] (provider : Provider σ) (source : σ)
    (never : provider.NeverFails source) (workloads : ι → List String) (schedule : List ι) :
    let m := (Machine.start (source, []) workloads).run provider.recorded schedule
    (m.shared.slots.map (·.table)).Nodup ∧
    ∀ table,
      (Call.answers m.shared.source.2 table).length ≤ 1 ∧
      (∀ i place stage, (m.threads i).phase = .inside table place stage →
        m.shared.tables.get? table = some place) ∧
      ∀ i result, (table, result) ∈ (m.threads i).answers →
        ∃ listed, Call.answers m.shared.source.2 table = [.ok listed] ∧
          result = .ok (ColumnMap.ofList listed) := by
  intro m
  have sound : m.Sound provider source :=
    sound_run never (sound_start provider source workloads) schedule
  refine ⟨nodup_slots sound.shared, fun table => ⟨?_, ?_, ?_⟩⟩
  · exact (sound.shared.progress table).length_le
  · intro i place stage reached
    have phase := (sound.threads i).phase
    rw [reached] at phase
    exact phase.1
  · intro i result member
    obtain ⟨columns, holds, rfl⟩ := (sound.threads i).answers _ member
    obtain ⟨listed, once, rfl⟩ := given_of_holds sound.shared holds
    exact ⟨listed, once, rfl⟩

/-- Both threads find no slot for "t" before one of them puts it up, and the second waits for its
lock while the first calls the provider, which would list other columns the next time. -/
theorem threads_share_fetch_race :
    let provider : Provider Nat := fun table n =>
      (.ok [⟨table ++ toString n, .integer, none, true, none⟩], n + 1)
    let schedule : List Bool := [false, true, false, true, false, true, false, false, true, false,
      false, false, true, true, true]
    let m := (Machine.start (0, []) fun _ => ["t"]).run provider.recorded schedule
    provider.NeverFails 0 ∧
    (∀ i, (m.threads i).answers.map (·.2.toOption) =
      [some (ColumnMap.ofList [⟨"t0", .integer, none, true, none⟩])]) ∧
    (Call.answers m.shared.source.2 "t").length ≤ 1 := by
  intro provider schedule
  dsimp only
  have never : provider.NeverFails 0 := by
    intro n _ table
    exact ⟨_, rfl⟩
  obtain ⟨-, share⟩ := threads_share_fetch provider 0 never (fun _ => ["t"]) schedule
  refine ⟨never, ?_, (share "t").1⟩
  decide +kernel

end SqlFragment
