import SqlFragment.Proofs.Lookup.Dependence

namespace SqlFragment

namespace Schema

theorem tables_foldl_addTable (tables : List Table) (s : Schema) :
    (tables.foldl addTable s).tables =
      tables.foldl (fun m t => m.insert t.name t) s.tables := by
  induction tables generalizing s with
  | nil => rfl
  | cons t rest ih => exact ih (s.addTable t)

theorem table?_ofTables (tables : List Table) (name : String) :
    (ofTables tables).table? name = tables.reverse.find? (·.name == name) := by
  rw [table?, ofTables, tables_foldl_addTable, Keyed.get?_foldl_insert]
  exact Option.or_none

end Schema

theorem run_column_anew (known : String → Except LookupError (List Column)) (a : Attribute) :
    (((ColumnLookup.anew (.ofAnswers known)).column a).run.run ()).1 =
      (known a.table).map fun columns => columns.reverse.find? (·.name == a.column) := by
  have last (columns : List Column) := ColumnMap.get?_ofList columns a.column
  rw [ColumnLookup.column, ← map_eq_pure_bind, Effect.run_map, run_anew_ofAnswers]
  cases known a.table with
  | error x => rfl
  | ok columns => exact congrArg Except.ok (last columns)

theorem columnFor_after (s : Schema) (ops : List Operation) (a : Attribute) :
    ((SchemaCache.columnFor Schema.provider a).run.run
        ((SchemaCache.fresh s).after Schema.provider ops)).1 =
      (s.listColumns a.table).map fun columns => columns.reverse.find? (·.name == a.column) := by
  have agree := ColumnLookup.agree_column (agree_columnsFor_anew (steady_provider s)) a
  have same := (agree _ () (mirrors_after (steady_provider s) ops)).1
  rw [run_column_anew] at same
  exact same

theorem nodup_of_described {drafts : List (String × List Edit)} {name : String} {t : Table}
    (found : (Schema.ofTables (drafts.map fun draft => .described draft.1 draft.2)).table? name =
      some t) : (t.columns.map (·.name)).Nodup := by
  rw [Schema.table?_ofTables] at found
  have added := List.mem_reverse.mp (List.mem_of_find?_eq_some found)
  obtain ⟨draft, -, rfl⟩ := List.mem_map.mp added
  exact Table.nodup_described draft.1 draft.2

/-- What is described last counts.
* The columns of a table that is described step by step have different names, in the order in which
  each name came first, and each is the last column that was added under its name.
* In a schema a name leads to the last table that had it when it was added, and to its columns; a
  name that no table had is refused.
* A lookup in a cache over a schema of such tables, whatever was done with the cache before, gives
  the column that is found in the table that the schema has under its name. -/
theorem metadata_keeps_last :
    (∀ (title : String) (edits : List Edit),
      let t := Table.described title edits
      let added := edits.filterMap Edit.column?
      (t.columns.map (·.name)).Nodup ∧
      t.columns.map (·.name) = (added.map (·.name)).eraseDups ∧
      (∀ c ∈ t.columns, added.reverse.find? (·.name == c.name) = some c) ∧
      ∀ name, t.column? name = added.reverse.find? (·.name == name)) ∧
    (∀ (tables : List Table) (name : String),
      let s := Schema.ofTables tables
      let last := tables.reverse.find? (·.name == name)
      s.table? name = last ∧
      s.listColumns name = last.elim (.error (.unknownTable name)) fun t => .ok t.columns) ∧
    ∀ (drafts : List (String × List Edit)) (ops : List Operation) (a : Attribute),
      let s := Schema.ofTables (drafts.map fun draft => .described draft.1 draft.2)
      ((SchemaCache.columnFor Schema.provider a).run.run
          ((SchemaCache.fresh s).after Schema.provider ops)).1 =
        (s.table? a.table).elim (.error (.unknownTable a.table)) fun t =>
          .ok (t.column? a.column) := by
  refine ⟨fun title edits => ⟨Table.nodup_described title edits, Table.names_described title edits,
    fun c member => ?_, Table.column?_described title edits⟩, fun tables name => ?_,
    fun drafts ops a => ?_⟩
  · rw [← Table.column?_described]
    exact Table.find?_of_mem (Table.nodup_described title edits) member
  · have last := Schema.table?_ofTables tables name
    refine ⟨last, ?_⟩
    rw [Schema.listColumns, ← last]
    cases (Schema.ofTables tables).table? name <;> rfl
  · intro s
    rw [columnFor_after, Schema.listColumns]
    cases found : s.table? a.table with
    | none => rfl
    | some t => exact congrArg Except.ok (Table.find?_reverse (nodup_of_described found) a.column)

/-- A table that is added twice, the second time under another name and with another column "a". -/
theorem metadata_keeps_last_renamed :
    let a (type : ColumnType) : Column := .ofType "a" type
    let edits : List Edit := [.add (a .text), .add (.ofType "b" .date)]
    let more : List Edit := edits ++ [.rename "u", .add (a .integer)]
    let s := Schema.ofTables [.described "t" edits, .described "t" more]
    let ops : List Operation := [.columnsFor "v", .columnFor ⟨"t", "a"⟩]
    let lookup (table : String) :=
      ((SchemaCache.columnFor Schema.provider ⟨table, "a"⟩).run.run
        ((SchemaCache.fresh s).after Schema.provider ops)).1
    a .integer ∈ (Table.described "t" more).columns ∧
    (more.filterMap Edit.column?).reverse.find? (·.name == "a") = some (a .integer) ∧
    lookup "t" = .ok (some (a .text)) ∧ lookup "u" = .ok (some (a .integer)) ∧
    lookup "v" = .error (.unknownTable "v") := by
  intro a edits more s ops lookup
  have member : a .integer ∈ (Table.described "t" more).columns := by decide
  obtain ⟨tables, -, lookups⟩ := metadata_keeps_last
  exact ⟨member, (tables "t" more).2.2.1 _ member,
    lookups [("t", edits), ("t", more)] ops ⟨"t", "a"⟩,
    lookups [("t", edits), ("t", more)] ops ⟨"u", "a"⟩,
    lookups [("t", edits), ("t", more)] ops ⟨"v", "a"⟩⟩

end SqlFragment
