import Mathlib.Data.List.Induction
import Mathlib.Data.List.Nodup
import SqlFragment.Schema

/-!
# Tables described step by step

A new table is described by columns that are added and by names that it is given. Whatever the
steps, its columns have different names (`nodup_described`), stand in the order in which their names
came first (`names_described`), and each is the last one added under its name
(`column?_described`). So it makes no difference from which end a column is looked for
(`find?_reverse`).
-/

namespace SqlFragment

/-- A step in the description of a table. -/
inductive Edit where
  | add (c : Column)
  | rename (name : String)

def Edit.column? : Edit → Option Column
  | add c => some c
  | rename _ => none

namespace Table

def edit (t : Table) : Edit → Table
  | .add c => t.addColumn c
  | .rename name => t.rename name

/-- What the edits make of a new table of that name. -/
def described (name : String) (edits : List Edit) : Table := edits.foldl edit (empty name)

theorem described_concat (name : String) (edits : List Edit) (e : Edit) :
    described name (edits ++ [e]) = (described name edits).edit e := by
  rw [described, List.foldl_concat, described]

theorem ofColumns_eq_described (name : String) (columns : List Column) :
    ofColumns name columns = described name (columns.map .add) := by
  rw [described, List.foldl_map]
  rfl

/-! ### Names -/

theorem names_replaceColumn (c : Column) (columns : List Column) :
    (replaceColumn c columns).map (·.name) =
      if c.name ∈ columns.map (·.name) then columns.map (·.name)
      else columns.map (·.name) ++ [c.name] := by
  induction columns with
  | nil => rfl
  | cons d rest ih =>
    rw [replaceColumn]
    by_cases same : d.name = c.name
    · simp [same]
    · rw [if_neg same, List.map_cons, ih, List.map_cons]
      by_cases member : c.name ∈ rest.map (·.name)
      · rw [if_pos member, if_pos (List.mem_cons_of_mem _ member)]
      · have absent : c.name ∉ d.name :: rest.map (·.name) := by simpa [Ne.symm same] using member
        rw [if_neg member, if_neg absent, List.cons_append]

theorem nodup_addColumn {t : Table} (distinct : (t.columns.map (·.name)).Nodup) (c : Column) :
    ((t.addColumn c).columns.map (·.name)).Nodup := by
  show ((replaceColumn c t.columns).map (·.name)).Nodup
  rw [names_replaceColumn]
  split
  · exact distinct
  · next absent => exact List.nodup_append_comm.mpr (List.nodup_cons.mpr ⟨absent, distinct⟩)

theorem nodup_described (name : String) (edits : List Edit) :
    ((described name edits).columns.map (·.name)).Nodup := by
  induction edits using List.reverseRecOn with
  | nil => exact List.nodup_nil
  | append_singleton edits e ih =>
    rw [described_concat]
    cases e with
    | add c => exact nodup_addColumn ih c
    | rename name => exact ih

theorem names_described (name : String) (edits : List Edit) :
    (described name edits).columns.map (·.name) =
      ((edits.filterMap Edit.column?).map (·.name)).eraseDups := by
  induction edits using List.reverseRecOn with
  | nil => rfl
  | append_singleton edits e ih =>
    rw [described_concat, List.filterMap_append, List.map_append, List.eraseDups_append, ← ih]
    cases e with
    | add c =>
      show (replaceColumn c _).map (·.name) = _ ++ (List.removeAll [c.name] _).eraseDups
      rw [names_replaceColumn, ih]
      simp only [List.mem_eraseDups]
      split
      · next member => simp [List.removeAll, member]
      · next absent => simp [List.removeAll, absent, List.eraseDups_cons]
    | rename name => exact (List.append_nil _).symm

/-! ### Columns by name -/

theorem find?_replaceColumn (c : Column) (columns : List Column) (name : String) :
    (replaceColumn c columns).find? (·.name == name) =
      if c.name = name then some c else columns.find? (·.name == name) := by
  induction columns with
  | nil => by_cases same : c.name = name <;> simp [replaceColumn, same]
  | cons d rest ih =>
    rw [replaceColumn]
    by_cases replaced : d.name = c.name
    · by_cases same : c.name = name <;> simp [replaced, same]
    · rw [if_neg replaced, List.find?_cons, ih, List.find?_cons]
      by_cases same : c.name = name
      · have other : (d.name == name) = false := by simpa [same] using replaced
        rw [other, if_pos same]
      · rw [if_neg same, if_neg same]

theorem column?_described (title : String) (edits : List Edit) (name : String) :
    (described title edits).column? name =
      (edits.filterMap Edit.column?).reverse.find? (·.name == name) := by
  induction edits using List.reverseRecOn with
  | nil => rfl
  | append_singleton edits e ih =>
    rw [described_concat, List.filterMap_append, List.reverse_append]
    cases e with
    | add c =>
      show (replaceColumn c _).find? _ = ([c] ++ _).find? _
      rw [find?_replaceColumn, List.singleton_append, List.find?_cons, ← ih]
      by_cases same : c.name = name
      · simp [same]
      · have other : (c.name == name) = false := by simpa using same
        rw [if_neg same, other, column?]
    | rename other => exact ih

theorem find?_of_mem {columns : List Column} (distinct : (columns.map (·.name)).Nodup) {c : Column}
    (member : c ∈ columns) : columns.find? (·.name == c.name) = some c := by
  induction columns with
  | nil => cases member
  | cons d rest ih =>
    obtain ⟨absent, others⟩ := List.nodup_cons.mp distinct
    obtain rfl | later := List.mem_cons.mp member
    · exact List.find?_cons_of_pos (beq_self_eq_true _)
    · have ne : d.name ≠ c.name := fun same => absent (List.mem_map.mpr ⟨c, later, same.symm⟩)
      rw [List.find?_cons_of_neg (by simpa using ne), ih others later]

theorem find?_reverse {columns : List Column} (distinct : (columns.map (·.name)).Nodup)
    (name : String) :
    columns.reverse.find? (·.name == name) = columns.find? (·.name == name) := by
  induction columns with
  | nil => rfl
  | cons c rest ih =>
    obtain ⟨absent, others⟩ := List.nodup_cons.mp distinct
    rw [List.reverse_cons, List.find?_append, ih others]
    by_cases same : c.name = name
    · have none : rest.find? (·.name == name) = none := by
        rw [List.find?_eq_none]
        intro d member found
        have again : d.name = c.name := (eq_of_beq found).trans same.symm
        exact absent (List.mem_map.mpr ⟨d, member, again⟩)
      simp [none, same]
    · simp [same]

theorem find?_reverse_ofColumns (title : String) (columns : List Column) (name : String) :
    (ofColumns title columns).columns.reverse.find? (·.name == name) =
      (ofColumns title columns).column? name := by
  rw [ofColumns_eq_described]
  exact find?_reverse (nodup_described _ _) name

end Table

end SqlFragment
