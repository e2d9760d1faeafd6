import SqlFragment.Lookup.Cache
import SqlFragment.Proofs.Effect

/-!
# What a lookup does to the cache

A lookup of a table ends in one of three ways: its columns are held already, the provider lists
them, or the provider fails. For each of them the answer and the cache afterwards are given as a
whole (`columnsFor_of_held`, `columnsFor_of_listed`, `columnsFor_of_failed`).
-/

namespace SqlFragment

namespace Keyed

variable {α : Type}

theorem contains_eq_isSome (m : Keyed α) (key : String) :
    m.contains key = (m.get? key).isSome := by
  rw [contains, get?, Option.isSome_map, List.isSome_find?]

theorem insert_insert (m : Keyed α) (key : String) (first second : α) :
    (m.insert key first).insert key second = m.insert key second := by
  simp [insert, erase]

theorem erase_insert (m : Keyed α) (key : String) (value : α) :
    (m.insert key value).erase key = m.erase key := by
  simp [insert, erase]

theorem get?_insert (m : Keyed α) (key other : String) (value : α) :
    (m.insert key value).get? other = if other = key then some value else m.get? other := by
  split
  · next same => rw [same, get?_insert_self]
  · next ne => exact get?_insert_of_ne m value ne

theorem get?_foldl_insert (name : α → String) (values : List α) (m : Keyed α) (key : String) :
    (values.foldl (fun m a => m.insert (name a) a) m).get? key =
      (values.reverse.find? (name · == key)).or (m.get? key) := by
  induction values generalizing m with
  | nil => rfl
  | cons a rest ih =>
    rw [List.foldl_cons, ih, List.reverse_cons, List.find?_append, get?_insert, Option.or_assoc]
    congr 1
    by_cases same : key = name a
    · simp [same]
    · simp [same, Ne.symm same]

end Keyed

namespace ColumnMap

theorem get?_ofList (columns : List Column) (name : String) :
    (ofList columns).get? name = columns.reverse.find? (·.name == name) := by
  rw [ofList, Keyed.get?_foldl_insert]
  exact Option.or_none

theorem get?_ofList_isSome (columns : List Column) (name : String) :
    ((ofList columns).get? name).isSome ↔ name ∈ columns.map (·.name) := by
  simp [get?_ofList]

end ColumnMap

namespace SchemaCache

variable {σ : Type} {provider : Provider σ} {table : String} {c : SchemaCache σ}

theorem held?_register (c : SchemaCache σ) (table other : String) :
    (c.register table).held? other = c.held? other := by
  rw [register]
  split
  · rfl
  · next absent =>
    rw [Keyed.contains_eq_isSome, Bool.not_eq_true, Option.isSome_eq_false_iff,
      Option.isNone_iff_eq_none] at absent
    rw [held?, held?, Keyed.get?_insert]
    split
    · next same => rw [same, absent]; rfl
    · rfl

theorem columnsFor_of_held {columns : ColumnMap} (held : c.held? table = some columns) :
    (columnsFor provider table).run.run c = (.ok columns, c.record (.hit table)) := by
  have present : c.slots.contains table := by
    rw [Keyed.contains_eq_isSome]
    cases slot : c.slots.get? table with
    | none => simp [held?, slot] at held
    | some _ => rfl
  have same : c.register table = c := if_pos present
  show columnsFor provider table c = _
  rw [columnsFor, same, held]

theorem columnsFor_of_absent (absent : c.held? table = none) :
    (columnsFor provider table).run.run c =
      ((c.register table).record (.miss table)).fetch provider table := by
  show columnsFor provider table c = _
  rw [columnsFor, held?_register, absent]

theorem register_source (c : SchemaCache σ) (table : String) :
    (c.register table).source = c.source := by
  rw [register]
  split <;> rfl

theorem register_events (c : SchemaCache σ) (table : String) :
    (c.register table).events = c.events := by
  rw [register]
  split <;> rfl

theorem insert_register (c : SchemaCache σ) (table : String) (slot : Option ColumnMap) :
    (c.register table).slots.insert table slot = c.slots.insert table slot := by
  rw [register]
  split
  · rfl
  · exact Keyed.insert_insert ..

theorem erase_register (c : SchemaCache σ) (table : String) :
    (c.register table).slots.erase table = c.slots.erase table := by
  rw [register]
  split
  · rfl
  · exact Keyed.erase_insert ..

theorem columnsFor_of_listed {listed : List Column} {source : σ} (absent : c.held? table = none)
    (asked : (provider table).run.run c.source = (.ok listed, source)) :
    (columnsFor provider table).run.run c =
      (.ok (ColumnMap.ofList listed),
        { source
          slots := c.slots.insert table (some (ColumnMap.ofList listed))
          events := c.events ++ [.miss table, .stored table (ColumnMap.ofList listed).size] }) := by
  rw [columnsFor_of_absent absent, fetch]
  simp only [record, register_source, asked, fill, insert_register, register_events,
    List.append_assoc, List.cons_append, List.nil_append]

theorem columnsFor_of_failed {x : LookupError} {source : σ} (absent : c.held? table = none)
    (asked : (provider table).run.run c.source = (.error x, source)) :
    (columnsFor provider table).run.run c =
      (.error x,
        { source
          slots := c.slots.erase table
          events := c.events ++ [.miss table, .failed table x] }) := by
  rw [columnsFor_of_absent absent, fetch]
  simp only [record, register_source, asked, unregister, erase_register, register_events,
    List.append_assoc, List.cons_append, List.nil_append]

/-! ### What is held -/

theorem held?_insert (source : σ) (events : List Event) (slots : Keyed (Option ColumnMap))
    (columns : ColumnMap) (table other : String) :
    held? ⟨source, slots.insert table (some columns), events⟩ other =
      if other = table then some columns else (slots.get? other).join := by
  rw [held?, Keyed.get?_insert]
  split <;> rfl

theorem held?_erase (source : σ) (events : List Event) (slots : Keyed (Option ColumnMap))
    (table other : String) :
    held? ⟨source, slots.erase table, events⟩ other =
      if other = table then none else (slots.get? other).join := by
  rw [held?]
  split
  · next same => rw [same, Keyed.get?_erase_self]; rfl
  · next ne => rw [Keyed.get?_erase_of_ne slots ne]

theorem columnsFor_cases (provider : Provider σ) (table : String) (c : SchemaCache σ) :
    (∃ columns, c.held? table = some columns ∧
      (columnsFor provider table).run.run c = (.ok columns, c.record (.hit table))) ∨
    (∃ listed source, c.held? table = none ∧
      (provider table).run.run c.source = (.ok listed, source) ∧
      (columnsFor provider table).run.run c =
        (.ok (ColumnMap.ofList listed),
          { source
            slots := c.slots.insert table (some (ColumnMap.ofList listed))
            events := c.events ++
              [.miss table, .stored table (ColumnMap.ofList listed).size] })) ∨
    (∃ x source, c.held? table = none ∧
      (provider table).run.run c.source = (.error x, source) ∧
      (columnsFor provider table).run.run c =
        (.error x,
          { source
            slots := c.slots.erase table
            events := c.events ++ [.miss table, .failed table x] })) := by
  cases held : c.held? table with
  | some columns => exact Or.inl ⟨columns, rfl, columnsFor_of_held held⟩
  | none =>
    rcases asked : (provider table).run.run c.source with ⟨x | listed, source⟩
    · exact Or.inr (Or.inr ⟨x, source, rfl, rfl, columnsFor_of_failed held asked⟩)
    · exact Or.inr (Or.inl ⟨listed, source, rfl, rfl, columnsFor_of_listed held asked⟩)

/-- After a lookup its table is held as it was given out, or not at all if the lookup failed; of no
other table anything changes. -/
theorem held?_columnsFor (provider : Provider σ) (table other : String) (c : SchemaCache σ) :
    ((columnsFor provider table).run.run c).2.held? other =
      if other = table then ((columnsFor provider table).run.run c).1.toOption
      else c.held? other := by
  rcases columnsFor_cases provider table c with
    ⟨columns, held, run⟩ | ⟨listed, source, -, -, run⟩ | ⟨x, source, -, -, run⟩
  · rw [run]
    split
    · next same => rw [same]; exact held
    · rfl
  · rw [run, held?_insert]
    rfl
  · rw [run, held?_erase]
    rfl

theorem run_columnFor (provider : Provider σ) (a : Attribute) (c : SchemaCache σ) :
    (columnFor provider a).run.run c =
      (((columnsFor provider a.table).run.run c).1.map (·.get? a.column),
        ((columnsFor provider a.table).run.run c).2) := by
  rw [columnFor, ← map_eq_pure_bind, Effect.run_map]

end SchemaCache

end SqlFragment
