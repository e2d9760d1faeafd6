import SqlFragment.Lookup.Cache

/-!
# Threads on one cache

A lookup by one of several threads, as the steps that other threads can come between. The map leads
from a table to the place of its slot, and a slot has a lock. A thread finds or puts up the slot,
waits for its lock, looks into it and, if it is empty, calls the provider and fills it; the slot is
put into the map again if it is no longer there. If the provider fails, the slot is taken out of the
map, but threads that found it before still work on it.
-/

namespace SqlFragment

variable {σ ι : Type}

/-- A slot of the table. `holder` is the thread that has its lock. -/
structure Slot (ι : Type) where
  table : String
  holder : Option ι
  columns : Option ColumnMap
  deriving DecidableEq

/-- What the threads share. A slot stays in `slots` when the map no longer leads to it. -/
structure SharedCache (σ ι : Type) where
  source : σ
  tables : Keyed Nat
  slots : List (Slot ι)
  events : List Event

namespace SharedCache

def fresh (source : σ) : SharedCache σ ι := ⟨source, ∅, [], []⟩

def record (e : Event) (s : SharedCache σ ι) : SharedCache σ ι :=
  { s with events := s.events ++ [e] }

def holder? (s : SharedCache σ ι) (place : Nat) : Option ι := s.slots[place]?.bind (·.holder)

def held? (s : SharedCache σ ι) (place : Nat) : Option ColumnMap := s.slots[place]?.bind (·.columns)

def change (place : Nat) (f : Slot ι → Slot ι) (s : SharedCache σ ι) : SharedCache σ ι :=
  { s with slots := s.slots.modify place f }

def lock (thread : ι) (place : Nat) : SharedCache σ ι → SharedCache σ ι :=
  change place fun slot => { slot with holder := some thread }

def release (place : Nat) : SharedCache σ ι → SharedCache σ ι :=
  change place fun slot => { slot with holder := none }

def fill (place : Nat) (columns : ColumnMap) : SharedCache σ ι → SharedCache σ ι :=
  change place fun slot => { slot with columns := some columns }

def putUp (table : String) (s : SharedCache σ ι) : SharedCache σ ι :=
  { s with
    tables := s.tables.insert table s.slots.length
    slots := s.slots ++ [⟨table, none, none⟩] }

def register (table : String) (place : Nat) (s : SharedCache σ ι) : SharedCache σ ι :=
  if s.tables.contains table then s else { s with tables := s.tables.insert table place }

/-- Takes the slot out of the map; another slot of the table stays. -/
def unregister (table : String) (place : Nat) (s : SharedCache σ ι) : SharedCache σ ι :=
  if s.tables.get? table = some place then { s with tables := s.tables.erase table } else s

end SharedCache

/-- How far the lookup of a thread is that has found its slot. -/
inductive Stage where
  | waiting
  | testing
  | calling
  | storing (columns : ColumnMap)
  | registering (columns : ColumnMap)
  | removing (x : LookupError)
  | releasing (result : Except LookupError ColumnMap)

inductive Phase where
  | idle
  /-- The map had no slot for the table. -/
  | creating (table : String)
  | inside (table : String) (place : Nat) (stage : Stage)

/-- A thread: the tables that it has still to look up, how far it is, and what it was given. -/
structure Thread where
  todo : List String
  phase : Phase
  answers : List (String × Except LookupError ColumnMap)

namespace Thread

def start (tables : List String) : Thread := ⟨tables, .idle, []⟩

/-- The next step inside a lookup; none as long as another thread has the lock. -/
def stepInside (provider : Provider σ) (me : ι) (thread : Thread) (table : String) (place : Nat)
    (s : SharedCache σ ι) : Stage → Option (Thread × SharedCache σ ι)
  | .waiting =>
    match s.holder? place with
    | some _ => none
    | none => some ({ thread with phase := .inside table place .testing }, s.lock me place)
  | .testing =>
    match s.held? place with
    | some columns =>
      some ({ thread with phase := .inside table place (.releasing (.ok columns)) },
        s.record (.hit table))
    | none => some ({ thread with phase := .inside table place .calling }, s.record (.miss table))
  | .calling =>
    match (provider table).run.run s.source with
    | (.ok listed, source) =>
      let columns := ColumnMap.ofList listed
      some ({ thread with phase := .inside table place (.storing columns) },
        { s with source }.record (.stored table columns.size))
    | (.error x, source) =>
      some ({ thread with phase := .inside table place (.removing x) },
        { s with source }.record (.failed table x))
  | .storing columns =>
    some ({ thread with phase := .inside table place (.registering columns) },
      s.fill place columns)
  | .registering columns =>
    some ({ thread with phase := .inside table place (.releasing (.ok columns)) },
      s.register table place)
  | .removing x =>
    some ({ thread with phase := .inside table place (.releasing (.error x)) },
      s.unregister table place)
  | .releasing result =>
    some ({ thread with phase := .idle, answers := thread.answers ++ [(table, result)] },
      s.release place)

/-- The next step of the thread; none if it has nothing to do or waits for a lock. -/
def step (provider : Provider σ) (me : ι) (thread : Thread) (s : SharedCache σ ι) :
    Option (Thread × SharedCache σ ι) :=
  match thread.phase with
  | .idle =>
    match thread.todo with
    | [] => none
    | table :: rest =>
      match s.tables.get? table with
      | some place =>
        some ({ thread with todo := rest, phase := .inside table place .waiting }, s)
      | none => some ({ thread with todo := rest, phase := .creating table }, s)
  | .creating table =>
    match s.tables.get? table with
    | some place => some ({ thread with phase := .inside table place .waiting }, s)
    | none =>
      some ({ thread with phase := .inside table s.slots.length .waiting }, s.putUp table)
  | .inside table place stage => thread.stepInside provider me table place s stage

end Thread

structure Machine (σ ι : Type) where
  shared : SharedCache σ ι
  threads : ι → Thread

namespace Machine

variable [DecidableEq ι]

def start (source : σ) (workloads : ι → List String) : Machine σ ι :=
  ⟨.fresh source, fun i => .start (workloads i)⟩

def moved (m : Machine σ ι) (me : ι) (thread : Thread) (shared : SharedCache σ ι) : Machine σ ι :=
  ⟨shared, fun i => if i = me then thread else m.threads i⟩

def turn (provider : Provider σ) (m : Machine σ ι) (me : ι) : Machine σ ι :=
  match (m.threads me).step provider me m.shared with
  | some (thread, shared) => m.moved me thread shared
  | none => m

def run (provider : Provider σ) (m : Machine σ ι) (schedule : List ι) : Machine σ ι :=
  schedule.foldl (turn provider) m

end Machine

end SqlFragment
