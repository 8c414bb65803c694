import XzmjxRpc.Lib.Reader

/-!
# XzmjxRpc.Lib.Script

What a decoder asks of the buffer it reads from: a `Script ρ τ α` is a value, or
a request and what comes after it, for every answer in tokens.

`Script.on` runs a script against any implementation of the requests.  A reader
that is a script on a stream can so be moved to another buffer, and one
induction compares the two: `Script.on_sim` lifts what holds of single requests
to every script, where `Script.Reads` says which ones it makes.

`Script.Triple` is a script's precondition and postcondition on one buffer,
with the errors it may fail with.
-/

/-- The requests of a decoder and what it makes of the answers. -/
inductive Script (ρ τ α : Type) where
  | ret (a : α)
  | read (r : ρ) (k : List τ → Script ρ τ α)

namespace Script

variable {ρ τ ε α β σ σ' : Type}

/-- One script after another. -/
def bind : Script ρ τ α → (α → Script ρ τ β) → Script ρ τ β
  | ret a, f => f a
  | read r k, f => read r fun xs => (k xs).bind f

instance : Monad (Script ρ τ) where
  pure := ret
  bind := bind

/-- The answer to `r`. -/
def take (r : ρ) : Script ρ τ (List τ) := read r ret

/-- Run `f` over the accumulator `n` times. -/
def iterate (f : β → Script ρ τ β) : Nat → β → Script ρ τ β
  | 0, b => pure b
  | n + 1, b => do iterate f n (← f b)

/-- A script, where `rd r` answers `r`. -/
def on (rd : ρ → StateT σ (Except ε) (List τ)) : Script ρ τ α → StateT σ (Except ε) α
  | ret a => pure a
  | read r k => do
      let xs ← rd r
      (k xs).on rd

/-! ## running -/

section
variable (rd : ρ → StateT σ (Except ε) (List τ))

theorem on_take (r : ρ) : (take r : Script ρ τ (List τ)).on rd = rd r := bind_pure (rd r)

theorem on_bind (m : Script ρ τ α) (f : α → Script ρ τ β) :
    (m >>= f).on rd = m.on rd >>= fun a => (f a).on rd := by
  induction m with
  | ret a => rfl
  | read r k ih =>
      change (rd r >>= fun xs => (k xs >>= f).on rd) = (rd r >>= fun xs => (k xs).on rd) >>= _
      rw [bind_assoc]
      exact congrArg (rd r >>= ·) (funext ih)

theorem on_map (g : α → β) (m : Script ρ τ α) :
    (do let a ← m; pure (g a) : Script ρ τ β).on rd = g <$> m.on rd := by
  rw [on_bind, map_eq_pure_bind]
  rfl

end

/-- A loop on a stream is a loop of readers. -/
theorem on_iterate (rd : ρ → Reader τ ε (List τ)) (f : β → Script ρ τ β) (n : Nat) (b : β) :
    (iterate f n b).on rd = Reader.iterate (fun b => (f b).on rd) n b := by
  induction n generalizing b with
  | zero => rfl
  | succ n ih =>
      rw [iterate, on_bind, Reader.iterate]
      exact congrArg (_ >>= ·) (funext ih)

/-! ## two implementations -/

/-- The same value from related states, or the same error. -/
inductive Matches (R : σ → σ' → Prop) : Except ε (α × σ) → Except ε (α × σ') → Prop
  | ok {a : α} {s : σ} {s' : σ'} (h : R s s') : Matches R (.ok (a, s)) (.ok (a, s'))
  | error (e : ε) : Matches R (.error e) (.error e)

theorem Matches.mono {R R' : σ → σ' → Prop} {r : Except ε (α × σ)} {r' : Except ε (α × σ')}
    (h : Matches R r r') (hR : ∀ s s', R s s' → R' s s') : Matches R' r r' := by
  cases h with
  | ok hs => exact .ok (hR _ _ hs)
  | error e => exact .error e

/-- Sequencing: what goes on from matching results matches. -/
theorem Matches.bind {R R' : σ → σ' → Prop} {rd : ρ → StateT σ (Except ε) (List τ)}
    {rd' : ρ → StateT σ' (Except ε) (List τ)} {m : Script ρ τ α} {f : α → Script ρ τ β} {s : σ}
    {s' : σ'} (hm : Matches R (m.on rd s) (m.on rd' s'))
    (hf : ∀ a s s', R s s' → Matches R' ((f a).on rd s) ((f a).on rd' s')) :
    Matches R' ((m >>= f).on rd s) ((m >>= f).on rd' s') := by
  rw [on_bind, on_bind]
  change Matches R' (m.on rd s >>= fun p => (f p.1).on rd p.2)
    (m.on rd' s' >>= fun p => (f p.1).on rd' p.2)
  generalize m.on rd s = r at hm ⊢
  generalize m.on rd' s' = r' at hm ⊢
  cases hm with
  | ok hs => exact hf _ _ _ hs
  | error e => exact .error e

/-- All the requests of a script are such. -/
def Reads (P : ρ → Prop) : Script ρ τ α → Prop
  | ret _ => True
  | read r k => P r ∧ ∀ xs, (k xs).Reads P

theorem Reads.pure {P : ρ → Prop} (a : α) : (Pure.pure a : Script ρ τ α).Reads P := trivial

theorem Reads.bind {P : ρ → Prop} {m : Script ρ τ α} {f : α → Script ρ τ β} (hm : m.Reads P)
    (hf : ∀ a, (f a).Reads P) : (m >>= f).Reads P := by
  induction m with
  | ret a => exact hf a
  | read r k ih => exact ⟨hm.1, fun xs => ih xs (hm.2 xs)⟩

theorem Reads.iterate {P : ρ → Prop} {f : β → Script ρ τ β} (h : ∀ b, (f b).Reads P) (n : Nat)
    (b : β) : (Script.iterate f n b).Reads P := by
  induction n generalizing b with
  | zero => exact .pure b
  | succ n ih => exact (h b).bind ih

/-- The requests of every script meet no condition. -/
theorem reads_true (m : Script ρ τ α) : m.Reads fun _ => True := by
  induction m with
  | ret a => exact trivial
  | read r k ih => exact ⟨trivial, ih⟩

/-- **Simulation**: when certain requests match on related states, so do the
scripts that make these requests. -/
theorem on_sim {R : σ → σ' → Prop} {P : ρ → Prop} {rd : ρ → StateT σ (Except ε) (List τ)}
    {rd' : ρ → StateT σ' (Except ε) (List τ)}
    (h : ∀ r s s', P r → R s s' → Matches R (rd r s) (rd' r s')) {m : Script ρ τ α}
    (hm : m.Reads P) {s : σ} {s' : σ'} (hs : R s s') : Matches R (m.on rd s) (m.on rd' s') := by
  induction m generalizing s s' with
  | ret a => exact .ok hs
  | read r k ih =>
      change Matches R (rd r s >>= fun p => (k p.1).on rd p.2)
        (rd' r s' >>= fun p => (k p.1).on rd' p.2)
      have hr := h r s s' hm.1 hs
      generalize rd r s = out at hr ⊢
      generalize rd' r s' = out' at hr ⊢
      cases hr with
      | ok hs' => exact ih _ (hm.2 _) hs'
      | error e => exact .error e

/-! ## pre- and postconditions -/

/-- From a state with `P` the script ends in one with `Q`, or fails as `E`
admits. -/
def Triple (rd : ρ → StateT σ (Except ε) (List τ)) (E : ε → Prop) (P : σ → Prop)
    (m : Script ρ τ α) (Q : σ → Prop) : Prop :=
  ∀ s, P s → (∃ a s', m.on rd s = .ok (a, s') ∧ Q s') ∨ ∃ e, E e ∧ m.on rd s = .error e

section
variable {rd : ρ → StateT σ (Except ε) (List τ)} {E : ε → Prop} {P P' Q Q' : σ → Prop}

theorem Triple.pure (a : α) : Triple rd E P (Pure.pure a) P := fun s hs => .inl ⟨a, s, rfl, hs⟩

/-- A request, by what it does. -/
theorem Triple.take {r : ρ}
    (h : ∀ s, P s → (∃ xs s', rd r s = .ok (xs, s') ∧ Q s') ∨ ∃ e, E e ∧ rd r s = .error e) :
    Triple rd E P (Script.take r) Q := fun s hs => by
  rw [on_take]
  exact h s hs

theorem Triple.bind {m : Script ρ τ α} {f : α → Script ρ τ β} (hm : Triple rd E P m Q)
    (hf : ∀ a, Triple rd E Q (f a) Q') : Triple rd E P (m >>= f) Q' := by
  intro s hs
  rw [on_bind]
  change (∃ b s', (m.on rd s >>= fun p => (f p.1).on rd p.2) = .ok (b, s') ∧ Q' s') ∨
    ∃ e, E e ∧ (m.on rd s >>= fun p => (f p.1).on rd p.2) = .error e
  obtain ⟨a, s', hok, hs'⟩ | ⟨e, he, herr⟩ := hm s hs
  · rw [hok]
    exact hf a s' hs'
  · rw [herr]
    exact .inr ⟨e, he, rfl⟩

theorem Triple.weaken {m : Script ρ τ α} (h : Triple rd E P m Q) (hP : ∀ s, P' s → P s)
    (hQ : ∀ s, Q s → Q' s) : Triple rd E P' m Q' := by
  intro s hs
  obtain ⟨a, s', hok, hs'⟩ | herr := h s (hP s hs)
  · exact .inl ⟨a, s', hok, hQ s' hs'⟩
  · exact .inr herr

/-- **Loop rule**: what every round keeps, the loop keeps. -/
theorem Triple.iterate {f : β → Script ρ τ β} (h : ∀ b, Triple rd E P (f b) P) (n : Nat) (b : β) :
    Triple rd E P (Script.iterate f n b) P := by
  induction n generalizing b with
  | zero => exact .pure b
  | succ n ih => exact (h b).bind ih

end

end Script
