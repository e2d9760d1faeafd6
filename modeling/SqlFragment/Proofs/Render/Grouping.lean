import SqlFragment.Expr.Equality
import SqlFragment.Proofs.Build.Rules
import SqlFragment.Proofs.Lookup.Calls
import SqlFragment.Proofs.Render.Pieces

/-!
# Grouping

Conjunctions below a conjunction, and arithmetic below arithmetic, are written without parentheses:
their text consists of the same pieces in the same order, however they are grouped. What a rendering
does follows from the pieces, so it is the same as well. Main statement:
`grouping_leaves_no_trace`.
-/

namespace SqlFragment

mutual

/-- What nested conjunctions join, from left to right. -/
def Expr.conjuncts : Expr → List Expr
  | .conjunction children => conjunctsOfEach children
  | e => [e]

def conjunctsOfEach : List Expr → List Expr
  | [] => []
  | e :: rest => e.conjuncts ++ conjunctsOfEach rest

end

/-- No rendering tells the two apart: not by its text or its error, not by the state that it leaves
behind, and not by the calls that it makes of a provider. -/
structure RendersAlike (d : Dialect) (e f : Expr) : Prop where
  plain : e.renderPlain d = f.renderPlain d
  cached : ∀ {σ : Type} (provider : Provider σ) (c : SchemaCache σ),
    (e.renderCached d provider).run.run c = (f.renderCached d provider).run.run c
  calls : ∀ {σ : Type} (provider : Provider σ) (c : SchemaCache (σ × List Call)),
    ((e.renderCached d provider.recorded).run.run c).2.source.2 =
      ((f.renderCached d provider.recorded).run.run c).2.source.2

theorem rendersAlike_of_pieces {e f : Expr} (same : e.pieces = f.pieces) (d : Dialect) :
    RendersAlike d e f := by
  have render {σ : Type} (find : TypeLookup σ) : e.render d find = f.render d find := by
    unfold Expr.render
    rw [write_eq_foldlM, write_eq_foldlM, same]
  refine ⟨?_, fun provider c => ?_, fun provider c => ?_⟩
  · rw [Expr.renderPlain, Expr.renderPlain, render]
  · rw [Expr.renderCached, Expr.renderCached, render]
  · rw [Expr.renderCached, Expr.renderCached, render]

/-! ### Conjuncts -/

theorem conjunctsOfEach_eq_flatMap (es : List Expr) :
    conjunctsOfEach es = es.flatMap Expr.conjuncts := by
  induction es with
  | nil => rfl
  | cons e rest ih => rw [conjunctsOfEach, ih, List.flatMap_cons]

theorem conjuncts_of_kind {e : Expr} (other : e.kind ≠ .conjunction) : e.conjuncts = [e] := by
  cases e with
  | conjunction children => exact absurd rfl other
  | _ => rfl

theorem kind_of_mem_conjuncts {e : Expr} :
    ∀ part ∈ e.conjuncts, part.kind ≠ .conjunction := by
  induction e using Expr.of_parts with
  | step e ih =>
    intro part member
    by_cases nested : e.kind = .conjunction
    · cases e with
      | conjunction children =>
        rw [Expr.conjuncts, conjunctsOfEach_eq_flatMap, List.mem_flatMap] at member
        obtain ⟨child, below, member⟩ := member
        exact ih child below part member
      | _ => cases nested
    · rw [conjuncts_of_kind nested, List.mem_singleton] at member
      rwa [member]

theorem length_le_conjuncts {children : List Expr}
    (some : ∀ child ∈ children, child.conjuncts ≠ []) :
    children.length ≤ (conjunctsOfEach children).length := by
  induction children with
  | nil => exact Nat.le_refl _
  | cons child rest ih =>
    obtain ⟨first, others⟩ := List.forall_mem_cons.mp some
    have here := List.length_pos_iff.mpr first
    have later := ih others
    rw [conjunctsOfEach, List.length_append, List.length_cons]
    omega

theorem conjuncts_ne_nil {e : Expr} (built : e.WellBuilt) : e.conjuncts ≠ [] := by
  induction e using Expr.of_parts with
  | step e ih =>
    by_cases nested : e.kind = .conjunction
    · cases e with
      | conjunction children =>
        have two : 2 ≤ children.length := built.here
        have most : children.length ≤ (conjunctsOfEach children).length :=
          length_le_conjuncts fun child below => ih child below (built.part below)
        rw [Expr.conjuncts, ← List.length_pos_iff]
        omega
      | _ => cases nested
    · rw [conjuncts_of_kind nested]
      exact List.cons_ne_nil _ _

theorem two_le_conjuncts {children : List Expr} (built : (Expr.conjunction children).WellBuilt) :
    2 ≤ (Expr.conjunction children).conjuncts.length := by
  have two : 2 ≤ children.length := built.here
  have most : children.length ≤ (conjunctsOfEach children).length :=
    length_le_conjuncts fun child below => conjuncts_ne_nil (built.part below)
  exact Nat.le_trans two most

theorem conjuncts_of_flat {children : List Expr}
    (flat : ∀ child ∈ children, child.kind ≠ .conjunction) :
    (Expr.conjunction children).conjuncts = children := by
  rw [Expr.conjuncts]
  induction children with
  | nil => rfl
  | cons child rest ih =>
    obtain ⟨first, others⟩ := List.forall_mem_cons.mp flat
    rw [conjunctsOfEach, conjuncts_of_kind first, ih others]
    rfl

/-! ### The pieces of a conjunction -/

namespace Piece

theorem separated_append (separator : String) {front back : List (List Piece)}
    (first : front ≠ []) (second : back ≠ []) :
    separated separator (front ++ back) =
      separated separator front ++ fixed separator :: separated separator back := by
  obtain ⟨x, xs, rfl⟩ := List.exists_cons_of_ne_nil first
  obtain ⟨y, ys, rfl⟩ := List.exists_cons_of_ne_nil second
  simp only [separated, List.cons_append, List.flatMap_append, List.flatMap_cons,
    List.append_assoc]

/-- Separating groups, and the members of each group by the same separator, separates all members.
No group may be empty: it would leave two separators side by side. -/
theorem separated_flatMap {α : Type} (separator : String) {members : α → List (List Piece)}
    {whole : α → List Piece} (groups : List α)
    (each : ∀ group ∈ groups,
      members group ≠ [] ∧ separated separator (members group) = whole group) :
    separated separator (groups.flatMap members) = separated separator (groups.map whole) := by
  induction groups with
  | nil => rfl
  | cons group rest ih =>
    obtain ⟨⟨some, same⟩, others⟩ := List.forall_mem_cons.mp each
    cases rest with
    | nil => simpa [separated] using same
    | cons next later =>
      have more : (next :: later).flatMap members ≠ [] := by
        have first := (others next List.mem_cons_self).1
        simp [first]
      rw [List.flatMap_cons, separated_append separator some more, same, ih others]
      simp [separated]

end Piece

theorem pieces_conjuncts {e : Expr} (built : e.WellBuilt) :
    Piece.separated " AND " (piecesOfEach e.conjuncts) = e.pieces := by
  induction e using Expr.of_parts with
  | step e ih =>
    by_cases nested : e.kind = .conjunction
    · cases e with
      | conjunction children =>
        rw [Expr.conjuncts, conjunctsOfEach_eq_flatMap, piecesOfEach_eq_map, List.map_flatMap,
          Expr.pieces, piecesOfEach_eq_map]
        apply Piece.separated_flatMap
        intro child below
        have whole := ih child below (built.part below)
        rw [piecesOfEach_eq_map] at whole
        refine ⟨?_, whole⟩
        rw [ne_eq, List.map_eq_nil_iff]
        exact conjuncts_ne_nil (built.part below)
      | _ => cases nested
    · rw [conjuncts_of_kind nested]
      simp [piecesOfEach, Piece.separated]

/-! ### Equality tells groupings apart -/

theorem kind_of_same {e f : Expr} (same : e.same f) : e.kind = f.kind := by
  cases e <;> cases f <;> first | rfl | cases same

theorem kinds_of_sameAll {es fs : List Expr} (same : Expr.sameAll es fs) :
    es.map Expr.kind = fs.map Expr.kind := by
  induction es generalizing fs with
  | nil =>
    cases fs with
    | nil => rfl
    | cons f fs => cases same
  | cons e es ih =>
    cases fs with
    | nil => cases same
    | cons f fs =>
      rw [Expr.sameAll, Bool.and_eq_true] at same
      rw [List.map_cons, List.map_cons, kind_of_same same.1, ih same.2]

theorem not_sameAll {nested flat : List Expr} {child : Expr} (member : child ∈ nested)
    (inner : child.kind = .conjunction) (none : ∀ part ∈ flat, part.kind ≠ .conjunction) :
    ¬ Expr.sameAll nested flat ∧ ¬ Expr.sameAll flat nested := by
  have seen : .conjunction ∈ nested.map Expr.kind := List.mem_map.mpr ⟨child, member, inner⟩
  have unseen : .conjunction ∉ flat.map Expr.kind := by
    rw [List.mem_map]
    rintro ⟨part, below, kind⟩
    exact none part below kind
  refine ⟨fun same => unseen ?_, fun same => unseen ?_⟩
  · rwa [← kinds_of_sameAll same]
  · rwa [kinds_of_sameAll same]

/-- However conjunctions are nested, what they join can be joined by one conjunction, and no
rendering tells the two apart. They are equal only if nothing was nested, and then they are
identical. Arithmetic is written alike whether it is grouped to the left or to the right. -/
theorem grouping_leaves_no_trace (d : Dialect) :
    (∀ e : Expr, e.WellBuilt → e.kind = .conjunction →
      ∃ flat, Expr.conjunctionOf e.conjuncts = .ok flat ∧
        (∀ part ∈ e.conjuncts, part.kind ≠ .conjunction) ∧
        RendersAlike d e flat ∧
        ((∀ child ∈ e.parts, child.kind ≠ .conjunction) → e = flat) ∧
        ∀ child ∈ e.parts, child.kind = .conjunction →
          e ≠ flat ∧ ¬ e.same flat ∧ ¬ flat.same e) ∧
    ∀ (p q : Operator) (a b c : Expr),
      RendersAlike d (.arithmetic q (.arithmetic p a b) c)
        (.arithmetic p a (.arithmetic q b c)) := by
  constructor
  · intro e built nested
    cases e with
    | conjunction children =>
      have alone := kind_of_mem_conjuncts (e := .conjunction children)
      have joined := Expr.conjunctionOf_eq_ok_iff.mpr ⟨two_le_conjuncts built, rfl⟩
      refine ⟨_, joined, alone, ?_, ?_, ?_⟩
      · exact rendersAlike_of_pieces (pieces_conjuncts built).symm d
      · intro flat
        exact congrArg Expr.conjunction (conjuncts_of_flat flat).symm
      · intro child member inner
        obtain ⟨forth, back⟩ := not_sameAll member inner alone
        refine ⟨fun same => ?_, forth, back⟩
        obtain same := Expr.conjunction.inj same
        exact alone child (same ▸ member) inner
    | _ => cases nested
  · intro p q a b c
    apply rendersAlike_of_pieces
    simp only [Expr.pieces, List.append_assoc, List.cons_append]

/-- The conjunction below the negation is not joined with the others. -/
theorem grouping_leaves_no_trace_negation :
    let a : Expr := .column ⟨"t", "a"⟩
    let b : Expr := .literal (.text " 7 ") (some ⟨"t", "b"⟩)
    let inner : Expr := .negation (.conjunction [b, a])
    let e : Expr := .conjunction [.conjunction [a, .conjunction [b, a]], inner]
    let flat : Expr := .conjunction [a, b, a, inner]
    (e.WellBuilt ∧ e.kind = .conjunction) ∧ .conjunction [a, .conjunction [b, a]] ∈ e.parts ∧
    RendersAlike .sqlite e flat ∧ e ≠ flat ∧ ¬ e.same flat := by
  intro a b inner e flat
  have built : e.WellBuilt := by decide
  have nested : .conjunction [a, .conjunction [b, a]] ∈ e.parts := List.mem_cons_self
  obtain ⟨joined, made, -, alike, -, other⟩ := (grouping_leaves_no_trace .sqlite).1 e built rfl
  have same : joined = flat := (Except.ok.inj made).symm
  rw [same] at alike other
  obtain ⟨different, unequal, -⟩ := other _ nested rfl
  exact ⟨⟨built, rfl⟩, nested, alike, different, unequal⟩

end SqlFragment
