/-!
# XzmjxRpc.Lib.Run

Finite runs of a labelled step relation `R : σ → α → σ → Prop` and the rules
the state machines of this development are proved with:

* `Run.invariant` — what the first state has and every step keeps, every
  state of every run has;
* `Restrict` — a run whose steps all meet a condition on the state before the
  step and its label is a run of the restricted relation, so a theorem about
  conditional runs is an invariant proof over `Restrict`;
* `Run.of_foldlM` — a run can be computed, where the steps can;
* `Run.simulate` — when every step of one relation is matched by a run of
  another, every run is.

Nothing here knows what the states and labels are.
-/

namespace Lts

variable {σ : Type u} {α : Type v} {R : σ → α → σ → Prop} {s t : σ}

/-- `Run R s as t`: the steps labelled `as`, taken in order, lead from `s`
to `t`. -/
inductive Run (R : σ → α → σ → Prop) (s : σ) : List α → σ → Prop
  | nil : Run R s [] s
  | snoc {as : List α} {t u : σ} {a : α} : Run R s as t → R t a u → Run R s (as ++ [a]) u

/-- The steps of `R` that meet the condition `C`. -/
def Restrict (R : σ → α → σ → Prop) (C : σ → α → Prop) (s : σ) (a : α) (t : σ) : Prop :=
  C s a ∧ R s a t

/-- A single step is a run. -/
theorem Run.single {a : α} (h : R s a t) : Run R s [a] t :=
  Run.snoc Run.nil h

/-- Runs compose. -/
theorem Run.append {as bs : List α} {u : σ} (h : Run R s as t) (h' : Run R t bs u) :
    Run R s (as ++ bs) u := by
  induction h' with
  | nil => rwa [List.append_nil]
  | snoc _ hr ih =>
      rw [← List.append_assoc]
      exact Run.snoc ih hr

/-- **Invariance**: what holds in the first state and is kept by every step
holds in every state a run reaches. -/
theorem Run.invariant {I : σ → Prop} {as : List α} (h0 : I s)
    (hstep : ∀ t a u, I t → R t a u → I u) (h : Run R s as t) : I t := by
  induction h with
  | nil => exact h0
  | snoc _ hr ih => exact hstep _ _ _ ih hr

/-- Weakening the step relation keeps the runs. -/
theorem Run.mono {R' : σ → α → σ → Prop} {as : List α} (hR : ∀ t a u, R t a u → R' t a u)
    (h : Run R s as t) : Run R' s as t := by
  induction h with
  | nil => exact Run.nil
  | snoc _ hr ih => exact Run.snoc ih (hR _ _ _ hr)

/-- A run that a partial function `f` computes, if its steps are steps of
`R`. -/
theorem Run.of_foldlM (f : σ → α → Option σ) (hf : ∀ t a u, f t a = some u → R t a u)
    {as : List α} (h : as.foldlM f s = some t) : Run R s as t := by
  induction as generalizing s with
  | nil =>
      cases h
      exact Run.nil
  | cons a as ih =>
      rw [List.foldlM_cons] at h
      obtain ⟨u, hu, hrest⟩ := Option.bind_eq_some_iff.mp h
      exact (Run.single (hf s a u hu)).append (ih hrest)

/-- **Simulation**: when every step of `R'` is matched by a run of `R` between
related states, so is every run. -/
theorem Run.simulate {σ' : Type w} {α' : Type x} {R' : σ' → α' → σ' → Prop} {S : σ → σ' → Prop}
    {s' t' : σ'} {as' : List α'} (h0 : S s s')
    (hstep : ∀ t t' a' u', S t t' → R' t' a' u' → ∃ as u, Run R t as u ∧ S u u')
    (h : Run R' s' as' t') : ∃ as t, Run R s as t ∧ S t t' := by
  induction h with
  | nil => exact ⟨[], s, .nil, h0⟩
  | snoc _ hr ih =>
      obtain ⟨as, t, hrun, ht⟩ := ih
      obtain ⟨bs, u, hmatch, hu⟩ := hstep _ _ _ _ ht hr
      exact ⟨as ++ bs, u, hrun.append hmatch, hu⟩

end Lts
