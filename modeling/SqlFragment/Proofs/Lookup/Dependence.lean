import SqlFragment.Proofs.Lookup.Transparency
import SqlFragment.Proofs.Table

namespace SqlFragment

/-! ### What a schema knows -/

/-- The type of the column of that name; of columns with one name the last counts. -/
def Table.type? (t : Table) (name : String) : Option ColumnType :=
  (t.columns.reverse.find? (·.name == name)).map (·.type)

theorem type?_ofColumns (title : String) (columns : List Column) (name : String) :
    (Table.ofColumns title columns).type? name =
      ((Table.ofColumns title columns).column? name).map (·.type) :=
  congrArg (Option.map Column.type) (Table.find?_reverse_ofColumns title columns name)

/-- What the schema knows of the column: nothing if the table is not known, and no type if the table
is known and lacks the column. -/
def Schema.known (s : Schema) : KnownTypes := fun a => (s.table? a.table).map (·.type? a.column)

theorem reaches_provider {s source : Schema} (reached : Schema.provider.Reaches s source) :
    source = s := by
  induction reached with
  | start => rfl
  | call _ table ih => exact ih

theorem steady_provider (s : Schema) : Schema.provider.Steady s s.listColumns := by
  intro source reached table
  rw [reaches_provider reached]
  rfl

/-! ### Rendering from two schemas -/

def Schema.typeLookup (s : Schema) : TypeLookup Unit :=
  (ColumnLookup.anew (.ofAnswers s.listColumns)).type

theorem run_typeLookup (s : Schema) (a : Attribute) :
    (s.typeLookup a).run.run () =
      (match s.known a with
        | some type => .ok type
        | none => .error (.unknownTable a.table), ()) := by
  have asked : (ColumnLookup.anew (.ofAnswers s.listColumns) a.table).run.run () = _ :=
    run_anew_ofAnswers a.table
  rw [Schema.typeLookup, ColumnLookup.type, ColumnLookup.column, ← map_eq_pure_bind,
    ← map_eq_pure_bind, Effect.run_map, Effect.run_map, asked, Schema.listColumns, Schema.known]
  cases s.table? a.table with
  | none => rfl
  | some t =>
    have last := ColumnMap.get?_ofList t.columns a.column
    exact congrArg (fun column : Option Column => (Except.ok (column.map (·.type)), ())) last

theorem agree_cached_typeLookup (s : Schema) (a : Attribute) :
    Effect.Agree (fun c _ => c.Mirrors Schema.provider s s.listColumns)
      (TypeLookup.cached Schema.provider a) (s.typeLookup a) :=
  ColumnLookup.agree_type (agree_columnsFor_anew (steady_provider s)) a

theorem renderCached_fresh (d : Dialect) (e : Expr) (s : Schema) :
    ((e.renderCached d Schema.provider).run.run (.fresh s)).1 =
      ((e.render d s.typeLookup).run.run ()).1 :=
  (agree_write d (agree_cached_typeLookup s) e "" (.fresh s) () mirrors_fresh).1

/-- A rendering over a new cache depends on no more of the schema than what it knows of the columns
that literals are bound to: not on other tables or columns, nor on the order of columns, nor on
anything else that a column says. -/
theorem rendered_eq_of_known (d : Dialect) (e : Expr) (s other : Schema)
    (same : ∀ a, .type a ∈ e.demands → s.known a = other.known a) :
    ((e.renderCached d Schema.provider).run.run (.fresh s)).1 =
      ((e.renderCached d Schema.provider).run.run (.fresh other)).1 := by
  have lookups : ∀ v a, .value v (some a) ∈ e.pieces →
      Effect.Agree (fun _ _ => True) (s.typeLookup a) (other.typeLookup a) := by
    rintro v a piece ⟨⟩ ⟨⟩ -
    rw [run_typeLookup, run_typeLookup, same a (mem_demands_of_piece piece)]
    exact ⟨rfl, trivial⟩
  rw [renderCached_fresh, renderCached_fresh]
  exact (agree_write_of_pieces d lookups "" () () trivial).1

/-- The table "t" with one column in common, in another place and otherwise described differently,
and no other table in common. -/
theorem rendered_eq_of_known_column :
    let s : Schema := .ofTables
      [.ofColumns "t" [⟨"a", .integer, none, true, none⟩, ⟨"b", .text, none, true, none⟩],
        .ofColumns "v" [⟨"a", .text, none, true, none⟩]]
    let other : Schema := .ofTables
      [.ofColumns "t" [⟨"c", .boolean, none, true, none⟩, ⟨"a", .integer, some "INT", false, some "0"⟩],
        .ofColumns "w" []]
    let bound (table column : String) : Expr := .literal (.text " 7 ") (some ⟨table, column⟩)
    let e : Expr := .conjunction
      [bound "t" "a", .row [bound "v" "a"] [some ⟨"t", "d"⟩], bound "u" "a", bound "u" "b"]
    (∀ a, .type a ∈ e.demands → s.known a = other.known a) ∧
    ((e.renderCached .sqlite Schema.provider).run.run (.fresh s)).1 =
      ((e.renderCached .sqlite Schema.provider).run.run (.fresh other)).1 := by
  intro s other bound e
  have same : ∀ a, .type a ∈ e.demands → s.known a = other.known a := by
    intro a member
    have listed : e.demands =
      [.type ⟨"t", "a"⟩, .type ⟨"t", "d"⟩, .type ⟨"u", "a"⟩, .type ⟨"u", "b"⟩] := rfl
    simp only [listed, List.mem_cons, List.not_mem_nil, or_false, Demand.type.injEq] at member
    rcases member with rfl | rfl | rfl | rfl <;> rfl
  exact ⟨same, rendered_eq_of_known .sqlite e s other same⟩

end SqlFragment
