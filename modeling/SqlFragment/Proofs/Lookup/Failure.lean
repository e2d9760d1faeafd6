import Mathlib.Data.Set.Card
import SqlFragment.Proofs.Lookup.Transparency

namespace SqlFragment

variable {σ : Type}

namespace Keyed

variable {α : Type}

def names (m : Keyed α) : List String := m.entries.map (·.1)

theorem mem_names_iff {m : Keyed α} {key : String} : key ∈ m.names ↔ (m.get? key).isSome := by
  rw [← contains_eq_isSome, contains, names, List.any_eq_true, List.mem_map]
  simp only [beq_iff_eq]

theorem nodup_erase {m : Keyed α} (distinct : m.names.Nodup) (key : String) :
    (m.erase key).names.Nodup := by
  have fewer : List.Sublist (m.erase key).names m.names := List.filter_sublist.map _
  exact fewer.nodup distinct

theorem nodup_insert {m : Keyed α} (distinct : m.names.Nodup) (key : String) (value : α) :
    (m.insert key value).names.Nodup := by
  have absent : key ∉ (m.erase key).names := by
    rw [mem_names_iff, get?_erase_self]
    simp
  exact List.nodup_cons.mpr ⟨absent, nodup_erase distinct key⟩

theorem mem_erase {m : Keyed α} {key : String} {entry : String × α}
    (member : entry ∈ (m.erase key).entries) : entry ∈ m.entries :=
  List.mem_of_mem_filter member

end Keyed

namespace SchemaCache

/-- What the slots are like between two operations: every slot is filled with columns that the
provider listed for its table, and no table has two. -/
structure Tidy (provider : Provider σ) (source : σ) (c : SchemaCache σ) : Prop where
  reached : provider.Reaches source c.source
  fetched : ∀ entry ∈ c.slots.entries, ∃ s listed, provider.Reaches source s ∧
    ((provider entry.1).run.run s).1 = .ok listed ∧ entry.2 = some (ColumnMap.ofList listed)
  distinct : c.slots.names.Nodup

/-- What a lookup of `table` may do, whatever it gives out: it fails exactly where a call of the
provider is needed and fails, with that error, and then leaves all slots as they were; otherwise at
most the slot of its own table is another than before. -/
structure LooksUp {α : Type} (provider : Provider σ) (table : String) (c : SchemaCache σ)
    (run : Except LookupError α × SchemaCache σ) : Prop where
  fails_iff : ∀ x, run.1 = .error x ↔
    c.isCached table = false ∧ ((provider table).run.run c.source).1 = .error x
  failed : ∀ x, run.1 = .error x → run.2.slots = c.slots
  others : run.2.slots.erase table = c.slots.erase table

/-! ### Every slot is filled -/

section Tidiness

variable {provider : Provider σ} {source : σ} {c : SchemaCache σ}

theorem tidy_fresh : Tidy provider source (fresh source) where
  reached := .start
  fetched _ member := nomatch member
  distinct := List.nodup_nil

theorem Tidy.filled (tidy : Tidy provider source c) : ∀ entry ∈ c.slots.entries, entry.2.isSome := by
  intro entry member
  obtain ⟨s, listed, -, -, full⟩ := tidy.fetched entry member
  rw [full]
  rfl

theorem tidy_columnsFor (table : String) (c : SchemaCache σ) (tidy : Tidy provider source c) :
    Tidy provider source ((columnsFor provider table).run.run c).2 := by
  have reached := tidy.reached.call table
  rcases columnsFor_cases provider table c with
    ⟨columns, held, run⟩ | ⟨listed, s, absent, asked, run⟩ | ⟨x, s, absent, asked, run⟩ <;> rw [run]
  · exact ⟨tidy.reached, tidy.fetched, tidy.distinct⟩
  · rw [asked] at reached
    refine ⟨reached, fun entry member => ?_, Keyed.nodup_insert tidy.distinct table _⟩
    rcases List.mem_cons.mp member with rfl | old
    · exact ⟨c.source, listed, tidy.reached, by rw [asked], rfl⟩
    · exact tidy.fetched entry (Keyed.mem_erase old)
  · rw [asked] at reached
    refine ⟨reached, fun entry member => ?_, Keyed.nodup_erase tidy.distinct table⟩
    exact tidy.fetched entry (Keyed.mem_erase member)

theorem tidy_after (ops : List Operation) (tidy : Tidy provider source c) :
    Tidy provider source (c.after provider ops) :=
  preserved_after tidy_columnsFor ops tidy

theorem Tidy.cachedTables_eq_size (tidy : Tidy provider source c) :
    c.cachedTables = c.slots.size := by
  unfold cachedTables Keyed.size
  exact List.countP_eq_length.mpr tidy.filled

theorem Tidy.isCached_iff (tidy : Tidy provider source c) (table : String) :
    c.isCached table ↔ table ∈ c.slots.names := by
  constructor
  · intro cached
    rw [Keyed.mem_names_iff]
    unfold isCached held? at cached
    cases slot : c.slots.get? table with
    | none => simp [slot] at cached
    | some columns => rfl
  · intro member
    by_contra missing
    have absent := isCached_eq_false.mp (Bool.not_eq_true _ ▸ missing)
    -- A slot that is not held would be empty, and there is none to erase.
    have same := erase_of_filled tidy.filled absent
    rw [Keyed.mem_names_iff, ← same, Keyed.get?_erase_self] at member
    cases member

theorem Tidy.cachedTables_eq_ncard (tidy : Tidy provider source c) :
    c.cachedTables = {table | c.isCached table}.ncard := by
  have cached : {table | c.isCached table} = c.slots.names.toFinset := by
    ext table
    simp only [Set.mem_ofPred_eq, List.coe_toFinset]
    exact tidy.isCached_iff table
  rw [tidy.cachedTables_eq_size, cached, Set.ncard_coe_finset,
    List.toFinset_card_of_nodup tidy.distinct]
  exact (List.length_map _).symm

theorem Tidy.register_empty (tidy : Tidy provider source c) {table : String}
    (absent : c.isCached table = false) : (c.register table).slots.get? table = some none := by
  have free : c.slots.contains table = false := by
    rw [Keyed.contains_eq_isSome, ← Bool.not_eq_true, ← Keyed.mem_names_iff, ← tidy.isCached_iff,
      absent]
    simp
  simp only [register, free, Bool.false_eq_true, if_false]
  exact Keyed.get?_insert_self ..

end Tidiness

/-! ### What a lookup leaves behind -/

section Lookups

variable {provider : Provider σ} {source : σ} {c : SchemaCache σ} (tidy : Tidy provider source c)
  (table : String)

include tidy

theorem looksUp_columnsFor : LooksUp provider table c ((columnsFor provider table).run.run c) := by
  rcases columnsFor_cases provider table c with
    ⟨columns, held, run⟩ | ⟨listed, s, absent, asked, run⟩ | ⟨x, s, absent, asked, run⟩ <;> rw [run]
  · have cached := isCached_of_held held
    refine ⟨fun x => ?_, nofun, rfl⟩
    simp [cached]
  · refine ⟨fun x => ?_, nofun, Keyed.erase_insert c.slots table _⟩
    simp [asked]
  · have kept := erase_of_filled tidy.filled absent
    refine ⟨fun y => ?_, fun y _ => kept, by rw [kept, kept]⟩
    simp [asked, isCached_eq_false.mpr absent]

theorem looksUp_columnFor (column : String) :
    LooksUp provider table c ((columnFor provider ⟨table, column⟩).run.run c) := by
  obtain ⟨fails, failed, others⟩ := looksUp_columnsFor tidy table
  have same : ∀ x, ((columnFor provider ⟨table, column⟩).run.run c).1 = .error x ↔
      ((columnsFor provider table).run.run c).1 = .error x := by
    intro x
    rw [run_columnFor]
    cases ((columnsFor provider table).run.run c).1 <;> simp [Except.map]
  have left : ((columnFor provider ⟨table, column⟩).run.run c).2 =
      ((columnsFor provider table).run.run c).2 := by rw [run_columnFor]
  refine ⟨fun x => (same x).trans (fails x), fun x h => ?_, ?_⟩
  · rw [left]
    exact failed x ((same x).mp h)
  · rw [left]
    exact others

end Lookups

end SchemaCache

open SchemaCache

/-- After any operations on a new cache, whatever the provider does, every slot holds columns that
the provider listed for its table, and as many tables are cached as there are slots. The next lookup
puts up an empty slot if its table is not cached. If it fails, it gives out the error of the provider
and all slots are as before; otherwise the slots of other tables are. -/
theorem failed_lookup_leaves_slots (provider : Provider σ) (source : σ) (ops : List Operation) :
    let c := (SchemaCache.fresh source).after provider ops
    (∀ entry ∈ c.slots.entries, ∃ s listed, provider.Reaches source s ∧
      ((provider entry.1).run.run s).1 = .ok listed ∧
      entry.2 = some (ColumnMap.ofList listed)) ∧
    c.cachedTables = c.slots.size ∧
    c.cachedTables = {table | c.isCached table}.ncard ∧
    ∀ table, (c.isCached table = false → (c.register table).slots.get? table = some none) ∧
      LooksUp provider table c ((columnsFor provider table).run.run c) ∧
      ∀ column, LooksUp provider table c ((columnFor provider ⟨table, column⟩).run.run c) := by
  intro c
  have tidy : Tidy provider source c := tidy_after ops tidy_fresh
  refine ⟨tidy.fetched, tidy.cachedTables_eq_size, tidy.cachedTables_eq_ncard, fun table => ?_⟩
  refine ⟨tidy.register_empty, looksUp_columnsFor tidy table, looksUp_columnFor tidy table⟩

end SqlFragment
