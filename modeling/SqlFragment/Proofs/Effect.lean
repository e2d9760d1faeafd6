import SqlFragment.Lookup.Provider

namespace SqlFragment.Effect

variable {σ τ ε δ α β : Type}

theorem run_bind (m : Effect σ ε α) (f : α → Effect σ ε β) (s : σ) :
    (m >>= f).run.run s =
      match m.run.run s with
      | (.ok a, after) => (f a).run.run after
      | (.error x, after) => (.error x, after) := by
  rw [ExceptT.run_bind, StateT.run_bind]
  show (match m.run.run s with | (result, after) => _) = _
  rcases m.run.run s with ⟨_ | _, after⟩ <;> rfl

theorem run_bind_ok {m : Effect σ ε α} {s after : σ} {a : α} (h : m.run.run s = (.ok a, after))
    (f : α → Effect σ ε β) : (m >>= f).run.run s = (f a).run.run after := by
  rw [run_bind, h]

theorem run_bind_error {m : Effect σ ε α} {s after : σ} {x : ε}
    (h : m.run.run s = (.error x, after)) (f : α → Effect σ ε β) :
    (m >>= f).run.run s = (.error x, after) := by
  rw [run_bind, h]

theorem run_map (m : Effect σ ε α) (f : α → β) (s : σ) :
    (f <$> m).run.run s = ((m.run.run s).1.map f, (m.run.run s).2) := by
  rw [map_eq_pure_bind, run_bind]
  rcases m.run.run s with ⟨_ | _, after⟩ <;> rfl

theorem run_adapt (f : ε → δ) (m : Effect σ ε α) (s : σ) :
    (ExceptT.adapt f m).run.run s = ((m.run.run s).1.mapError f, (m.run.run s).2) := rfl

theorem run_adapt_ok {m : Effect σ ε α} {s after : σ} {a : α} (h : m.run.run s = (.ok a, after))
    (f : ε → δ) : (ExceptT.adapt f m).run.run s = (.ok a, after) := by
  rw [run_adapt, h]
  rfl

theorem run_adapt_error {m : Effect σ ε α} {s after : σ} {x : ε}
    (h : m.run.run s = (.error x, after)) (f : ε → δ) :
    (ExceptT.adapt f m).run.run s = (.error (f x), after) := by
  rw [run_adapt, h]
  rfl

/-- From related states the two computations give the same result and end in related states. -/
def Agree (related : σ → τ → Prop) (m : Effect σ ε α) (n : Effect τ ε α) : Prop :=
  ∀ s t, related s t →
    (m.run.run s).1 = (n.run.run t).1 ∧ related (m.run.run s).2 (n.run.run t).2

variable {related : σ → τ → Prop}

theorem agree_pure (a : α) : Agree related (pure a : Effect σ ε α) (pure a) :=
  fun _ _ h => ⟨rfl, h⟩

theorem agree_throw (x : ε) : Agree related (throw x : Effect σ ε α) (throw x) :=
  fun _ _ h => ⟨rfl, h⟩

theorem agree_bind {m : Effect σ ε α} {n : Effect τ ε α} {f : α → Effect σ ε β}
    {g : α → Effect τ ε β} (first : Agree related m n) (next : ∀ a, Agree related (f a) (g a)) :
    Agree related (m >>= f) (n >>= g) := by
  intro s t h
  obtain ⟨same, after⟩ := first s t h
  rw [run_bind, run_bind]
  rcases hm : m.run.run s with ⟨x | a, s'⟩ <;> rcases hn : n.run.run t with ⟨y | b, t'⟩ <;>
    rw [hm, hn] at same after <;> cases same
  · exact ⟨rfl, after⟩
  · exact next a s' t' after

theorem agree_adapt {m : Effect σ ε α} {n : Effect τ ε α} (f : ε → δ) (h : Agree related m n) :
    Agree related (ExceptT.adapt f m) (ExceptT.adapt f n) := by
  intro s t start
  obtain ⟨same, after⟩ := h s t start
  exact ⟨congrArg (Except.mapError f) same, after⟩

theorem agree_foldlM {m : β → α → Effect σ ε β} {n : β → α → Effect τ ε β} {items : List α}
    (step : ∀ b, ∀ a ∈ items, Agree related (m b a) (n b a)) (b : β) :
    Agree related (items.foldlM m b) (items.foldlM n b) := by
  induction items generalizing b with
  | nil => exact agree_pure b
  | cons a rest ih =>
    rw [List.foldlM_cons, List.foldlM_cons]
    exact agree_bind (step b a List.mem_cons_self)
      (ih fun b a member => step b a (List.mem_cons_of_mem _ member))

end SqlFragment.Effect
