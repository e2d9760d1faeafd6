import SqlFragment.Proofs.Lookup.Calls
import SqlFragment.Proofs.Render.Refinement

namespace SqlFragment

variable {σ : Type}

/-- The tables of the columns whose types are demanded before the first refusal. -/
def Demand.tables : List Demand → List String
  | [] => []
  | type a :: rest => a.table :: tables rest
  | refusal _ :: _ => []

def Expr.footprint (e : Expr) : List String := Demand.tables e.demands

/-- The error of a lookup that ended the rendering. -/
def RenderError.lookup? {α : Type} : Except RenderError α → Option LookupError
  | .error (.lookup x) => some x
  | _ => none

theorem Call.listed?_isSome (calls : List Call) (table : String) :
    (Call.listed? calls table).isSome ↔ ∃ columns, ⟨table, .ok columns⟩ ∈ calls := by
  induction calls with
  | nil => simp [Call.listed?]
  | cons call rest ih =>
    obtain ⟨name, x | columns⟩ := call
    · rw [Call.listed?_cons_error, ih]
      simp
    · rw [Call.listed?_cons_ok]
      by_cases same : table = name
      · simp [same]
      · simp [same, ih]

theorem fetched_meetAll (provider : Provider σ) (demands : List Demand)
    (c : SchemaCache (σ × List Call)) :
    SchemaCache.Fetched provider (Demand.tables demands) c
      ((meetAll (.cached provider.recorded) demands).run.run c).2
      (RenderError.lookup? ((meetAll (.cached provider.recorded) demands).run.run c).1) := by
  induction demands generalizing c with
  | nil => exact SchemaCache.fetched_nil
  | cons demand rest ih =>
    cases demand with
    | refusal kind => exact SchemaCache.fetched_nil
    | type a =>
      have cached := run_cached provider.recorded a c
      rcases SchemaCache.columnsFor_recorded_cases provider a.table c with
        ⟨columns, held, run⟩ | ⟨listed, s, absent, call, run⟩ | ⟨x, s, absent, call, run⟩ <;>
        rw [run] at cached
      · rw [run_meetAll_met (run_meet_found cached)]
        exact SchemaCache.fetched_cons_held held (ih _)
      · rw [run_meetAll_met (run_meet_found cached)]
        exact SchemaCache.fetched_cons_listed absent call (ih _)
      · rw [run_meetAll_failed (run_meet_failed cached)]
        exact SchemaCache.fetched_cons_failed absent call

theorem meetAll_of_tables_nil {find : TypeLookup σ} {demands : List Demand}
    (h : Demand.tables demands = []) (s : σ) : ((meetAll find demands).run.run s).2 = s := by
  cases demands with
  | nil => rfl
  | cons demand rest =>
    cases demand with
    | refusal kind => rfl
    | type a => cases h

theorem agree_cached (provider : Provider σ) (a : Attribute) :
    Effect.Agree (fun c plain => c.unrecorded = plain)
      (TypeLookup.cached provider.recorded a) (TypeLookup.cached provider a) :=
  Effect.agree_bind (SchemaCache.agree_columnFor provider a) fun _ => Effect.agree_pure _

theorem fetched_write (provider : Provider σ) (d : Dialect) (e : Expr) (text : String)
    (c : SchemaCache (σ × List Call)) :
    let written := (e.write d (.cached provider.recorded) text).run.run c
    SchemaCache.Fetched provider e.footprint c written.2 (RenderError.lookup? written.1) := by
  have fetched := fetched_meetAll provider e.demands c
  rcases run_write_cases (keeps_cached provider.recorded) d e text c with
    ⟨after, composed, met, -, wrote⟩ | ⟨after, x, failed, -, stopped⟩
  · rw [met] at fetched
    rw [wrote]
    exact fetched
  · rw [failed] at fetched
    rw [stopped]
    cases x <;> exact fetched

/-- A rendering makes exactly the calls for the tables of its footprint that are not held, up to the
first that fails. Afterwards the tables are cached that were before, and those that were listed. -/
theorem renderCached_fetches_footprint (provider : Provider σ) (d : Dialect) (e : Expr)
    (c : SchemaCache (σ × List Call)) :
    let rendered := (e.renderCached d provider.recorded).run.run c
    let after := rendered.2
    let made := fetchEach provider (missing c.isCached e.footprint) c.source.1
    (e.renderCached d provider).run.run c.unrecorded = (rendered.1, after.unrecorded) ∧
    after.source = (made.2, c.source.2 ++ made.1) ∧
    (∀ table, after.isCached table ↔
      c.isCached table ∨ ∃ columns, ⟨table, .ok columns⟩ ∈ made.1) ∧
    (e.footprint = [] → after = c) := by
  intro rendered after made
  obtain ⟨source, held, -⟩ := fetched_write provider d e "" c
  obtain ⟨answer, state⟩ := agree_write d (agree_cached provider) e "" c _ rfl
  refine ⟨Prod.ext answer.symm state.symm, source, fun table => ?_, fun empty => ?_⟩
  · have now : after.held? table =
        (c.held? table).or ((Call.listed? made.1 table).map ColumnMap.ofList) := held table
    rw [SchemaCache.isCached, SchemaCache.isCached, now, Option.isSome_or, Bool.or_eq_true,
      Option.isSome_map, Call.listed?_isSome]
  · obtain ⟨state, -⟩ := run_write (keeps_cached provider.recorded) d e "" c
    exact state.trans (meetAll_of_tables_nil empty c)

end SqlFragment
