import SqlFragment.Proofs.Build.Rules
import SqlFragment.Proofs.Render.Refinement

namespace SqlFragment

variable {σ : Type}

/-- A row with an item that is neither a literal nor raw text. -/
def Expr.HasForeignItem : Expr → Prop
  | row items _ => ∃ item ∈ items, item.kind ≠ .literal ∧ item.kind ≠ .raw
  | _ => False

/-- No demand is an item that no row can have. -/
def NothingRefused (demands : List Demand) : Prop := ∀ kind, .refusal kind ∉ demands

/-- Meeting the demands from `c` on, every lookup that is reached finds its table and no such column
in it. -/
def FindsNoColumn (provider : Provider σ) (demands : List Demand) (c : SchemaCache σ) : Prop :=
  ∀ met a rest between, demands = met ++ .type a :: rest →
    (meetAll (.cached provider) met).run.run c = (.ok (), between) →
    ((SchemaCache.columnFor provider a).run.run between).1 = .ok none

/-! ### Where refusals come from -/

theorem mem_demandsOfEach {demand : Demand} {es : List Expr} :
    demand ∈ demandsOfEach es ↔ ∃ e ∈ es, demand ∈ e.demands := by
  induction es with
  | nil => simp [demandsOfEach]
  | cons e rest ih => simp [demandsOfEach, ih]

theorem refusal_notMem_ofTarget (kind : Kind) (target : Option Attribute) :
    .refusal kind ∉ Demand.ofTarget target := by
  cases target <;> simp [Demand.ofTarget]

theorem refusal_mem_ofItem (item : Expr × Option Attribute) :
    (∃ kind, .refusal kind ∈ Demand.ofItem item) ↔
      item.1.kind ≠ .literal ∧ item.1.kind ≠ .raw := by
  obtain ⟨item, target⟩ := item
  cases item with
  | literal v own => simp [Demand.ofItem, refusal_notMem_ofTarget, Expr.kind]
  | _ => simp [Demand.ofItem, Expr.kind]

/-- Items that come with as many columns are all reached. -/
theorem refusal_mem_row {items : List Expr} {columns : List (Option Attribute)}
    (same : items.length = columns.length) :
    (∃ kind, .refusal kind ∈ (Expr.row items columns).demands) ↔
      (Expr.row items columns).HasForeignItem := by
  have first : (items.zip columns).map Prod.fst = items := List.map_fst_zip (Nat.le_of_eq same)
  constructor
  · rintro ⟨kind, member⟩
    obtain ⟨pair, place, refused⟩ := List.mem_flatMap.mp member
    exact ⟨pair.1, (List.of_mem_zip place).1, (refusal_mem_ofItem pair).mp ⟨kind, refused⟩⟩
  · rintro ⟨item, member, foreign⟩
    rw [← first] at member
    obtain ⟨pair, place, rfl⟩ := List.mem_map.mp member
    obtain ⟨kind, refused⟩ := (refusal_mem_ofItem pair).mpr foreign
    exact ⟨kind, List.mem_flatMap.mpr ⟨pair, place, refused⟩⟩

theorem refusal_mem_parts {e : Expr} (other : e.kind ≠ .row) {kind : Kind} :
    .refusal kind ∈ e.demands ↔ ∃ part ∈ e.parts, .refusal kind ∈ part.demands := by
  cases e with
  | row items columns => exact absurd rfl other
  | literal v target => simp [Expr.demands, Expr.parts, refusal_notMem_ofTarget]
  | call | conjunction => exact mem_demandsOfEach
  | _ => simp [Expr.demands, Expr.parts]

theorem kind_of_somewhere {e : Expr} (h : e.Somewhere Expr.HasForeignItem) :
    e.kind ≠ .literal ∧ e.kind ≠ .raw := by
  cases e with
  | literal | raw =>
    rcases Expr.somewhere_iff.mp h with here | ⟨part, member, -⟩
    · exact here.elim
    · cases member
  | _ => constructor <;> nofun

theorem refusal_mem_iff {e : Expr} (built : e.WellBuilt) :
    (∃ kind, .refusal kind ∈ e.demands) ↔ e.Somewhere Expr.HasForeignItem := by
  induction e using Expr.of_parts with
  | step e ih =>
    by_cases row : e.kind = .row
    · cases e with
      | row items columns =>
        rw [refusal_mem_row built.here.2, Expr.somewhere_iff]
        constructor
        · exact Or.inl
        · rintro (here | ⟨item, member, inside⟩)
          · exact here
          · exact ⟨item, member, kind_of_somewhere inside⟩
      | _ => cases row
    · rw [Expr.somewhere_iff]
      constructor
      · rintro ⟨kind, member⟩
        obtain ⟨part, below, member⟩ := (refusal_mem_parts row).mp member
        exact Or.inr ⟨part, below, (ih part below (built.part below)).mp ⟨kind, member⟩⟩
      · rintro (here | ⟨part, below, inside⟩)
        · cases e with
          | row => exact absurd rfl row
          | _ => exact here.elim
        · obtain ⟨kind, member⟩ := (ih part below (built.part below)).mpr inside
          exact ⟨kind, (refusal_mem_parts row).mpr ⟨part, below, member⟩⟩

/-- Demands are met up to the first refusal, if there is one. -/
theorem first_refusal (demands : List Demand) :
    NothingRefused demands ∨
      ∃ met kind rest, demands = met ++ .refusal kind :: rest ∧ NothingRefused met := by
  induction demands with
  | nil => exact Or.inl fun _ => List.not_mem_nil
  | cons demand rest ih =>
    cases demand with
    | refusal kind => exact Or.inr ⟨[], kind, rest, rfl, fun _ => List.not_mem_nil⟩
    | type a =>
      have cons {found : List Demand} (h : NothingRefused found) :
          NothingRefused (.type a :: found) := by
        intro kind member
        rcases List.mem_cons.mp member with same | member
        · cases same
        · exact h kind member
      rcases ih with none | ⟨met, kind, later, rfl, none⟩
      · exact Or.inl (cons none)
      · exact Or.inr ⟨.type a :: met, kind, later, rfl, cons none⟩

/-! ### Meeting demands that refuse nothing -/

section Meeting

variable {demands : List Demand}

theorem lookup_of_meetAll {find : TypeLookup σ} (none : NothingRefused demands) {s after : σ}
    {x : RenderError} (failed : (meetAll find demands).run.run s = (.error x, after)) :
    ∃ y, x = .lookup y := by
  obtain ⟨met, demand, rest, between, rfl, -, fails⟩ := meetAll_error_iff.mp failed
  cases demand with
  | refusal kind => exact absurd (List.mem_append_right met List.mem_cons_self) (none kind)
  | type a =>
    rcases found : (find a).run.run between with ⟨y | type, held⟩
    · rw [run_meet_failed found] at fails
      cases fails
      exact ⟨y, rfl⟩
    · rw [run_meet_found found] at fails
      cases fails

theorem run_meetAll_none (none : NothingRefused demands) :
    (meetAll .none demands).run.run () = (.ok (), ()) := by
  rcases run : (meetAll .none demands).run.run () with ⟨x | ⟨⟩, ⟨⟩⟩
  · obtain ⟨met, demand, rest, between, rfl, -, fails⟩ := meetAll_error_iff.mp run
    cases demand with
    | refusal kind => exact absurd (List.mem_append_right met List.mem_cons_self) (none kind)
    | type a => cases fails
  · rfl

theorem run_meetAll_refusal (find : TypeLookup σ) (met rest : List Demand) (kind : Kind) (s : σ) :
    (meetAll find (met ++ .refusal kind :: rest)).run.run s =
      match (meetAll find met).run.run s with
      | (.ok (), between) => (.error (.unsupportedItem kind), between)
      | (.error x, between) => (.error x, between) := by
  rw [meetAll_append, Effect.run_bind]
  rcases (meetAll find met).run.run s with ⟨x | ⟨⟩, between⟩ <;> rfl

end Meeting

section NoColumn

variable {provider : Provider σ} {c : SchemaCache σ} {demands : List Demand}

theorem FindsNoColumn.left {met rest : List Demand}
    (finds : FindsNoColumn provider (met ++ rest) c) : FindsNoColumn provider met c := by
  intro before a later between split reached
  apply finds before a (later ++ rest) between _ reached
  rw [split, List.append_assoc, List.cons_append]

theorem FindsNoColumn.head {a : Attribute} {rest : List Demand}
    (finds : FindsNoColumn provider (.type a :: rest) c) :
    ∃ between, (TypeLookup.cached provider a).run.run c = (.ok none, between) ∧
      FindsNoColumn provider rest between := by
  have found := finds [] a rest c rfl rfl
  rcases run : (SchemaCache.columnFor provider a).run.run c with ⟨answer, between⟩
  rw [run] at found
  cases found
  have type : (TypeLookup.cached provider a).run.run c = (.ok none, between) :=
    Effect.run_bind_ok run _
  refine ⟨between, type, ?_⟩
  intro met b later reached split run
  apply finds (.type a :: met) b later reached
  · rw [split, List.cons_append]
  · rw [run_meetAll_met (run_meet_found type), run]

/-- Every lookup is reached, and what it found is still known in the end. -/
theorem run_meetAll_cached (none : NothingRefused demands)
    (finds : FindsNoColumn provider demands c) :
    ∃ after, (meetAll (.cached provider) demands).run.run c = (.ok (), after) ∧
      ∀ a, .type a ∈ demands → after.known a = some Option.none := by
  induction demands generalizing c with
  | nil => exact ⟨c, rfl, fun a member => nomatch member⟩
  | cons demand rest ih =>
    cases demand with
    | refusal kind => exact absurd List.mem_cons_self (none kind)
    | type a =>
      obtain ⟨between, type, later⟩ := finds.head
      obtain ⟨after, met, known⟩ := ih (fun kind member => none kind (.tail _ member)) later
      refine ⟨after, (run_meetAll_met (run_meet_found type) rest).trans met, ?_⟩
      intro b member
      rcases List.mem_cons.mp member with same | member
      · cases same
        have first := (keeps_cached provider).found type
        have kept := kept_meetAll (keeps_cached provider) rest first
        rwa [met] at kept
      · exact known b member

end NoColumn

/-! ### Both renderings -/

section Outcome

variable {e : Expr} (d : Dialect)

theorem renderPlain_of_met (none : NothingRefused e.demands) :
    ∃ text, e.text? d (fun _ => some Option.none) = some text ∧ e.renderPlain d = .ok text := by
  obtain ⟨text, composed, wrote⟩ := run_write_of_met keeps_none d "" (run_meetAll_none none)
  refine ⟨text, composed, ?_⟩
  rw [Expr.renderPlain, Expr.render, wrote, String.empty_append]

variable {met rest : List Demand} {kind : Kind} (split : e.demands = met ++ .refusal kind :: rest)

include split

theorem renderPlain_of_refusal (none : NothingRefused met) :
    e.renderPlain d = .error (.unsupportedItem kind) := by
  have failed : (meetAll .none e.demands).run.run () = (.error (.unsupportedItem kind), ()) := by
    rw [split, run_meetAll_refusal, run_meetAll_none none]
  rw [Expr.renderPlain, Expr.render, run_write_of_failed keeps_none d "" failed]

theorem renderCached_of_refusal (provider : Provider σ) (c : SchemaCache σ)
    (none : NothingRefused met) :
    let cached := (e.renderCached d provider).run.run c
    cached.1 = .error (.unsupportedItem kind) ∨
      ∃ y, FailsFirst (.cached provider) met c (.lookup y) cached.2 ∧
        cached.1 = .error (.lookup y) := by
  have run := run_meetAll_refusal (.cached provider) met rest kind c
  rw [← split] at run
  unfold Expr.renderCached Expr.render
  rcases before : (meetAll (.cached provider) met).run.run c with ⟨x | ⟨⟩, between⟩ <;>
    rw [before] at run <;> rw [run_write_of_failed (keeps_cached provider) d "" run]
  · obtain ⟨y, rfl⟩ := lookup_of_meetAll none before
    exact Or.inr ⟨y, meetAll_error_iff.mp before, rfl⟩
  · exact Or.inl rfl

end Outcome

theorem renderCached_of_met {e : Expr} (d : Dialect) (provider : Provider σ) (c : SchemaCache σ)
    (none : NothingRefused e.demands) :
    let cached := (e.renderCached d provider).run.run c
    (∃ text, cached.1 = .ok text) ∨ ∃ y, cached.1 = .error (.lookup y) := by
  unfold Expr.renderCached Expr.render
  rcases run : (meetAll (.cached provider) e.demands).run.run c with ⟨x | ⟨⟩, after⟩
  · obtain ⟨y, rfl⟩ := lookup_of_meetAll none run
    rw [run_write_of_failed (keeps_cached provider) d "" run]
    exact Or.inr ⟨y, rfl⟩
  · obtain ⟨text, -, wrote⟩ := run_write_of_met (keeps_cached provider) d "" run
    rw [wrote]
    exact Or.inl ⟨"" ++ text, rfl⟩

theorem text?_of_known_none {e : Expr} (d : Dialect) {known : KnownTypes}
    (untyped : ∀ a, .type a ∈ e.demands → known a = some none) :
    e.text? d known = e.text? d fun _ => some none := by
  rw [text?_eq_textOf?, text?_eq_textOf?]
  apply Piece.textOf?_congr
  intro piece member
  cases piece with
  | fixed | column | refused => rfl
  | value v target =>
    cases target with
    | none => rfl
    | some a =>
      simp only [Piece.text?, literalText?, untyped a (mem_demands_of_piece member)]

theorem renderCached_of_findsNoColumn {e : Expr} (d : Dialect) {provider : Provider σ}
    {c : SchemaCache σ} (finds : FindsNoColumn provider e.demands c) :
    ((e.renderCached d provider).run.run c).1 = e.renderPlain d := by
  rcases first_refusal e.demands with none | ⟨met, kind, rest, split, none⟩
  · obtain ⟨after, run, untyped⟩ := run_meetAll_cached none finds
    obtain ⟨text, plain, rendered⟩ := renderPlain_of_met d none
    obtain ⟨cached, composed, wrote⟩ := run_write_of_met (keeps_cached provider) d "" run
    rw [text?_of_known_none d untyped, plain] at composed
    cases composed
    rw [Expr.renderCached, Expr.render, wrote, rendered, String.empty_append]
  · have before := finds
    rw [split] at before
    obtain ⟨after, run, -⟩ := run_meetAll_cached none before.left
    have failed := run_meetAll_refusal (.cached provider) met rest kind c
    rw [run, ← split] at failed
    rw [renderPlain_of_refusal d split none, Expr.renderCached, Expr.render,
      run_write_of_failed (keeps_cached provider) d "" failed]

/-- Without a schema only an item that no row can have makes a rendering fail, and it is the first
such item that is reported. A rendering with a cache then fails too, there or at a lookup before; if
there is no such item it fails at most at a lookup. Where every lookup finds its table and no such
column in it, both give the same. -/
theorem renderCached_against_renderPlain (provider : Provider σ) (d : Dialect) (e : Expr)
    (c : SchemaCache σ) :
    let plain := e.renderPlain d
    let cached := (e.renderCached d provider).run.run c
    (∀ x, plain = .error x → ∃ met kind rest, e.demands = met ++ .refusal kind :: rest ∧
      NothingRefused met ∧ x = .unsupportedItem kind ∧
      (cached.1 = .error x ∨
        ∃ y, FailsFirst (.cached provider) met c (.lookup y) cached.2 ∧
          cached.1 = .error (.lookup y))) ∧
    (e.WellBuilt → ((∃ x, plain = .error x) ↔ e.Somewhere Expr.HasForeignItem)) ∧
    (∀ text, plain = .ok text →
      (∃ t, cached.1 = .ok t) ∨ ∃ y, cached.1 = .error (.lookup y)) ∧
    (FindsNoColumn provider e.demands c → cached.1 = plain) := by
  intro plain cached
  rcases first_refusal e.demands with none | ⟨met, kind, rest, split, none⟩
  · obtain ⟨text, -, rendered⟩ := renderPlain_of_met d none
    have succeeds : plain = .ok text := rendered
    refine ⟨?_, fun built => ?_, ?_, renderCached_of_findsNoColumn d⟩
    · intro x failed
      rw [succeeds] at failed
      cases failed
    · rw [← refusal_mem_iff built]
      constructor
      · rintro ⟨x, failed⟩
        rw [succeeds] at failed
        cases failed
      · rintro ⟨kind, member⟩
        exact absurd member (none kind)
    · intro _ _
      exact renderCached_of_met d provider c none
  · have fails : plain = .error (.unsupportedItem kind) := renderPlain_of_refusal d split none
    refine ⟨?_, fun built => ?_, ?_, renderCached_of_findsNoColumn d⟩
    · intro x failed
      rw [fails] at failed
      cases failed
      exact ⟨met, kind, rest, split, none, rfl, renderCached_of_refusal d split provider c none⟩
    · rw [← refusal_mem_iff built]
      have refused : .refusal kind ∈ e.demands := by
        rw [split]
        exact List.mem_append_right met List.mem_cons_self
      exact ⟨fun _ => ⟨kind, refused⟩, fun _ => ⟨.unsupportedItem kind, fails⟩⟩
    · intro text succeeds
      rw [fails] at succeeds
      cases succeeds

/-- The column "b" is not in "t", so with the schema the literal is written as without, and both
renderings stop at the item behind it. -/
theorem renderCached_against_renderPlain_refused :
    let c : SchemaCache Schema :=
      .fresh (.ofTables [.ofColumns "t" [⟨"a", .integer, none, true, none⟩]])
    let e : Expr := .conjunction [.literal (.text "7") (some ⟨"t", "b"⟩),
      .row [.raw "DEFAULT", .column ⟨"t", "a"⟩] [none, some ⟨"t", "a"⟩]]
    e.WellBuilt ∧ e.Somewhere Expr.HasForeignItem ∧
    FindsNoColumn Schema.provider e.demands c ∧
    (∃ x, e.renderPlain .sqlite = .error x) ∧
    ((e.renderCached .sqlite Schema.provider).run.run c).1 = e.renderPlain .sqlite := by
  intro c e
  have built : e.WellBuilt := by decide
  have foreign : e.Somewhere Expr.HasForeignItem := by
    apply Expr.Somewhere.inside (List.mem_cons_of_mem _ List.mem_cons_self)
    exact .here ⟨.column ⟨"t", "a"⟩, by simp, nofun, nofun⟩
  have listed : e.demands = [.type ⟨"t", "b"⟩, .refusal .column] := rfl
  have finds : FindsNoColumn Schema.provider e.demands c := by
    rw [listed]
    intro met a rest between split reached
    match met with
    | [] =>
      cases split
      cases reached
      rfl
    | [_] => cases split
    | [_, _] => cases split
  obtain ⟨-, refuses, -, same⟩ := renderCached_against_renderPlain Schema.provider .sqlite e c
  exact ⟨built, foreign, finds, (refuses built).mpr foreign, same finds⟩

end SqlFragment
