import Mathlib.Algebra.GroupWithZero.Nat
import XzmjxRpc.Lib.Reader

/-!
# XzmjxRpc.Lib.Metered

Readers that keep a log of events while they read.  A metered reader that
fails returns the log up to where it stopped.

`Follows m' m` says that `m'` is the reader `m` with a log: it succeeds and
fails where `m` does.  `Meters w Q m` says that a success of `m` costs: the
events it logged weigh no more than the tokens it took, and each of them meets
`Q`.  The rule for a counted loop (`Meters.counted`) is where `Q` comes from:
the event of the count is judged only when the loop has come to its end.

`Caps w Q m` is about failures: unless it logged an event without `Q`, what `m`
logged weighs no more than the tokens there were.  `Marks P C m` says where
events with `P` come from: on the tokens with `C` one is logged, on no others.
`Gains w c m g` says that a value is worth no more than what was logged for it.
All of them follow the structure of the reader.
-/

/-- A reader of tokens `τ` that may fail with `ε` and logs events `ω`. -/
abbrev Metered (τ ε ω α : Type) := StateT (List τ × List ω) (Except (ε × List ω)) α

namespace Metered

variable {τ ε ω α β γ : Type}

/-- Run a plain reader, and log what there is to say about its result and the
tokens left. -/
def lift (m : Reader τ ε α) (log : α → List τ → List ω) : Metered τ ε ω α := fun (s, l) =>
  match m s with
  | .error e => .error (e, l)
  | .ok (a, rest) => .ok (a, rest, l ++ log a rest)

/-- Run `f` over the accumulator `n` times. -/
def iterate (f : β → Metered τ ε ω β) : Nat → β → Metered τ ε ω β
  | 0, b => pure b
  | n + 1, b => do iterate f n (← f b)

/-- The log after a run, whether it succeeds or fails. -/
def logAfter (m : Metered τ ε ω α) (p : List τ × List ω) : List ω :=
  match m p with
  | .error (_, l) => l
  | .ok (_, _, l) => l

/-- The log of a run. -/
def logOf (m : Metered τ ε ω α) (s : List τ) : List ω := logAfter m (s, [])

/-- `m'` is `m` with a log. -/
structure Follows (m' : Metered τ ε ω α) (m : Reader τ ε α) : Prop where
  ok : ∀ s l a rest, m s = .ok (a, rest) → ∃ l', m' (s, l) = .ok (a, rest, l')
  error : ∀ s l e, m s = .error e → ∃ l', m' (s, l) = .error (e, l')

/-- When `m` succeeds, the new events weigh no more than the tokens taken, and
all meet `Q`. -/
def Meters (w : ω → Nat) (Q : ω → Prop) (m : Metered τ ε ω α) : Prop :=
  ∀ s l a rest l', m (s, l) = .ok (a, rest, l') →
    ∃ new, l' = l ++ new ∧ (new.map w).sum + rest.length ≤ s.length ∧ ∀ x ∈ new, Q x

/-- When `m` fails and all the new events meet `Q`, they weigh no more than the
tokens. -/
def Caps (w : ω → Nat) (Q : ω → Prop) (m : Metered τ ε ω α) : Prop :=
  ∀ s l e l', m (s, l) = .error (e, l') →
    ∃ new, l' = l ++ new ∧ ((∀ x ∈ new, Q x) → (new.map w).sum ≤ s.length)

/-- A new event has `P` exactly when the tokens have `C`. -/
def Marks (P : ω → Prop) (C : List τ → Prop) (m : Metered τ ε ω α) : Prop :=
  ∀ s l, ∃ new, logAfter m (s, l) = l ++ new ∧ ((∃ x ∈ new, P x) ↔ C s)

/-- The value of a success is worth no more than `c` and the new events. -/
def Gains (w : ω → Nat) (c : Nat) (m : Metered τ ε ω α) (g : α → Nat) : Prop :=
  ∀ s l a rest l', m (s, l) = .ok (a, rest, l') →
    ∃ new, l' = l ++ new ∧ g a ≤ c + (new.map w).sum

theorem bind_apply (m : Metered τ ε ω α) (f : α → Metered τ ε ω β) (p : List τ × List ω) :
    (m >>= f) p = m p >>= fun q => f q.1 q.2 := rfl

/-! ## following a reader -/

section
variable {m' : Metered τ ε ω α} {m : Reader τ ε α}

/-- What a metered reader returns, the plain one does. -/
theorem Follows.of_ok (h : Follows m' m) {s rest : List τ} {l l' : List ω} {a : α}
    (hr : m' (s, l) = .ok (a, rest, l')) : m s = .ok (a, rest) := by
  cases hm : m s with
  | error e =>
      obtain ⟨l₁, h₁⟩ := h.error s l e hm
      rw [h₁] at hr
      cases hr
  | ok p =>
      obtain ⟨l₁, h₁⟩ := h.ok s l p.1 p.2 hm
      rw [h₁] at hr
      cases hr
      rfl

theorem Follows.pure (a : α) : Follows (Pure.pure a : Metered τ ε ω α) (Pure.pure a) where
  ok := by
    rintro s l b rest ⟨⟩
    exact ⟨l, rfl⟩
  error := by
    rintro s l e ⟨⟩

theorem Follows.lift (m : Reader τ ε α) (log : α → List τ → List ω) :
    Follows (Metered.lift m log) m where
  ok s l a rest h := ⟨_, by rw [Metered.lift, h]⟩
  error s l e h := ⟨_, by rw [Metered.lift, h]⟩

theorem Follows.bind {f' : α → Metered τ ε ω β} {f : α → Reader τ ε β} (hm : Follows m' m)
    (hf : ∀ a, Follows (f' a) (f a)) : Follows (m' >>= f') (m >>= f) where
  ok := by
    intro s l b rest h
    rw [Reader.bind_apply] at h
    cases hs : m s with
    | error e =>
        rw [hs] at h
        cases h
    | ok p =>
        rw [hs] at h
        obtain ⟨l₁, h₁⟩ := hm.ok s l p.1 p.2 hs
        obtain ⟨l₂, h₂⟩ := (hf p.1).ok p.2 l₁ b rest h
        exact ⟨l₂, by rw [bind_apply, h₁]; exact h₂⟩
  error := by
    intro s l e h
    rw [Reader.bind_apply] at h
    cases hs : m s with
    | error e₁ =>
        rw [hs] at h
        cases h
        obtain ⟨l₁, h₁⟩ := hm.error s l e hs
        exact ⟨l₁, by rw [bind_apply, h₁]; rfl⟩
    | ok p =>
        rw [hs] at h
        obtain ⟨l₁, h₁⟩ := hm.ok s l p.1 p.2 hs
        obtain ⟨l₂, h₂⟩ := (hf p.1).error p.2 l₁ e h
        exact ⟨l₂, by rw [bind_apply, h₁]; exact h₂⟩

theorem Follows.map (g : α → β) (hm : Follows m' m) : Follows (g <$> m') (g <$> m) :=
  hm.bind fun a => Follows.pure (g a)

theorem Follows.iterate {f' : β → Metered τ ε ω β} {f : β → Reader τ ε β}
    (h : ∀ b, Follows (f' b) (f b)) (n : Nat) (b : β) :
    Follows (Metered.iterate f' n b) (Reader.iterate f n b) := by
  induction n generalizing b with
  | zero => exact Follows.pure b
  | succ n ih => exact (h b).bind ih

end

/-! ## what a success costs -/

section
variable {w : ω → Nat} {Q : ω → Prop} {m : Metered τ ε ω α}

theorem Meters.pure (a : α) : Meters w Q (Pure.pure a : Metered τ ε ω α) := by
  rintro s l b rest l' ⟨⟩
  exact ⟨[], (List.append_nil l).symm, by simp, by simp⟩

/-- A plain reader that takes at least what its events weigh. -/
theorem Meters.lift {m : Reader τ ε α} {c : α → Nat} (hm : Reader.Takes m c)
    {log : α → List τ → List ω} (hw : ∀ a rest, ((log a rest).map w).sum ≤ c a)
    (hQ : ∀ a rest, ∀ x ∈ log a rest, Q x) : Meters w Q (Metered.lift m log) := by
  intro s l a rest l' h
  unfold Metered.lift at h
  cases hs : m s with
  | error e =>
      simp only [hs] at h
      cases h
  | ok p =>
      obtain ⟨b, rest'⟩ := p
      simp only [hs] at h
      cases h
      have htakes := hm s a rest hs
      have hle := hw a rest
      exact ⟨log a rest, rfl, by omega, hQ a rest⟩

/-- Sequencing: the events stand one after the other. -/
theorem Meters.bind {f : α → Metered τ ε ω β} (hm : Meters w Q m) (hf : ∀ a, Meters w Q (f a)) :
    Meters w Q (m >>= f) := by
  intro s l b rest l' h
  rw [bind_apply] at h
  cases hs : m (s, l) with
  | error e =>
      rw [hs] at h
      cases h
  | ok p =>
      obtain ⟨a, s', l₁⟩ := p
      rw [hs] at h
      obtain ⟨new₁, rfl, hle₁, hQ₁⟩ := hm s l a s' l₁ hs
      obtain ⟨new₂, rfl, hle₂, hQ₂⟩ := hf a s' _ b rest l' h
      refine ⟨new₁ ++ new₂, List.append_assoc .., ?_, fun x hx => ?_⟩
      · rw [List.map_append, List.sum_append]
        omega
      · exact (List.mem_append.mp hx).elim (hQ₁ x) (hQ₂ x)

theorem Meters.map (g : α → β) (hm : Meters w Q m) : Meters w Q (g <$> m) :=
  hm.bind fun a => Meters.pure (g a)

theorem Meters.iterate {f : β → Metered τ ε ω β} (h : ∀ b, Meters w Q (f b)) (n : Nat) (b : β) :
    Meters w Q (Metered.iterate f n b) := by
  induction n generalizing b with
  | zero => exact Meters.pure b
  | succ n ih => exact (h b).bind ih

/-- **A counted loop**: a reader of the count, whose event names the count and
the number of tokens after it, and a loop whose success shows the event to be
good. -/
theorem Meters.counted {m : Reader τ ε γ} {c : γ → Nat} (hm : Reader.Takes m c)
    {event : γ → Nat → ω} (hw : ∀ n left, w (event n left) ≤ c n) {f : γ → Metered τ ε ω β}
    (hf : ∀ n, Meters w Q (f n))
    (hQ : ∀ n s l b rest l', f n (s, l) = .ok (b, rest, l') → Q (event n s.length)) :
    Meters w Q (Metered.lift m (fun n rest => [event n rest.length]) >>= f) := by
  intro s l b rest l' h
  rw [bind_apply] at h
  unfold Metered.lift at h
  cases hs : m s with
  | error e =>
      simp only [hs] at h
      cases h
  | ok p =>
      obtain ⟨n, s'⟩ := p
      simp only [hs] at h
      have htakes := hm s n s' hs
      have hle := hw n s'.length
      obtain ⟨new, hnew, hle', hQ'⟩ := hf n s' _ b rest l' h
      refine ⟨event n s'.length :: new, ?_, ?_, fun x hx => ?_⟩
      · rw [hnew, List.append_assoc, List.singleton_append]
      · rw [List.map_cons, List.sum_cons]
        omega
      · rcases List.mem_cons.mp hx with rfl | hx
        · exact hQ n s' _ b rest l' h
        · exact hQ' x hx

end

/-! ## what a failure leaves -/

section
variable {w : ω → Nat} {Q Q' : ω → Prop} {m : Metered τ ε ω α}

theorem Caps.pure (a : α) : Caps w Q (Pure.pure a : Metered τ ε ω α) := by
  rintro s l e l' ⟨⟩

/-- A plain reader that fails logs nothing. -/
theorem Caps.lift (m : Reader τ ε α) (log : α → List τ → List ω) :
    Caps w Q (Metered.lift m log) := by
  intro s l e l' h
  unfold Metered.lift at h
  cases hs : m s with
  | error e' =>
      simp only [hs] at h
      cases h
      exact ⟨[], (List.append_nil l).symm, fun _ => Nat.zero_le _⟩
  | ok p =>
      simp only [hs] at h
      cases h

/-- Sequencing: what the first part took pays for what it logged. -/
theorem Caps.bind {f : α → Metered τ ε ω β} (hm : Caps w Q m) (hpaid : Meters w Q' m)
    (hf : ∀ a, Caps w Q (f a)) : Caps w Q (m >>= f) := by
  intro s l e l' h
  rw [bind_apply] at h
  cases hs : m (s, l) with
  | error p =>
      rw [hs] at h
      cases h
      exact hm s l e l' hs
  | ok p =>
      obtain ⟨a, s', l₁⟩ := p
      rw [hs] at h
      obtain ⟨new₁, rfl, hle₁, -⟩ := hpaid s l a s' l₁ hs
      obtain ⟨new₂, rfl, hle₂⟩ := hf a s' _ e l' h
      refine ⟨new₁ ++ new₂, List.append_assoc .., fun hall => ?_⟩
      have hrest := hle₂ fun x hx => hall x (List.mem_append_right _ hx)
      rw [List.map_append, List.sum_append]
      omega

theorem Caps.map (g : α → β) (hm : Caps w Q m) (hpaid : Meters w Q' m) : Caps w Q (g <$> m) :=
  hm.bind hpaid fun a => Caps.pure (g a)

theorem Caps.iterate {f : β → Metered τ ε ω β} (h : ∀ b, Caps w Q (f b))
    (hpaid : ∀ b, Meters w Q' (f b)) (n : Nat) (b : β) : Caps w Q (Metered.iterate f n b) := by
  induction n generalizing b with
  | zero => exact Caps.pure b
  | succ n ih => exact (h b).bind (hpaid b) ih

end

/-! ## where events come from -/

theorem logAfter_error {m : Metered τ ε ω α} {p : List τ × List ω} {e : ε} {l : List ω}
    (h : m p = .error (e, l)) : logAfter m p = l := by
  rw [logAfter, h]

theorem logAfter_ok {m : Metered τ ε ω α} {p : List τ × List ω} {a : α} {s : List τ} {l : List ω}
    (h : m p = .ok (a, s, l)) : logAfter m p = l := by
  rw [logAfter, h]

section
variable {P : ω → Prop} {C : List τ → Prop}

theorem Marks.congr {m : Metered τ ε ω α} {C' : List τ → Prop} (hm : Marks P C m)
    (h : ∀ s, C s ↔ C' s) : Marks P C' m := fun s l => by
  obtain ⟨new, hnew, hiff⟩ := hm s l
  exact ⟨new, hnew, hiff.trans (h s)⟩

theorem Marks.pure (a : α) : Marks P (fun _ => False) (Pure.pure a : Metered τ ε ω α) :=
  fun _ l => ⟨[], (List.append_nil l).symm, by simp⟩

theorem Marks.lift (m : Reader τ ε α) (log : α → List τ → List ω) :
    Marks P (fun s => ∃ a rest, m s = .ok (a, rest) ∧ ∃ x ∈ log a rest, P x)
      (Metered.lift m log) := by
  intro s l
  show ∃ new, _ = l ++ new ∧ (_ ↔ ∃ a rest, m s = .ok (a, rest) ∧ ∃ x ∈ log a rest, P x)
  cases hs : m s with
  | error e =>
      have hrun : Metered.lift m log (s, l) = .error (e, l) := by rw [Metered.lift, hs]
      exact ⟨[], by rw [logAfter_error hrun, List.append_nil], by simp⟩
  | ok p =>
      have hrun : Metered.lift m log (s, l) = .ok (p.1, p.2, l ++ log p.1 p.2) := by
        rw [Metered.lift, hs]
      refine ⟨log p.1 p.2, logAfter_ok hrun, ?_⟩
      constructor
      · exact fun h => ⟨p.1, p.2, rfl, h⟩
      · rintro ⟨a, rest, ⟨⟩, h⟩
        exact h

/-- Sequencing: in the first part, or after it in the second. -/
theorem Marks.bind {m' : Metered τ ε ω α} {m : Reader τ ε α} {f : α → Metered τ ε ω β}
    {D : α → List τ → Prop} (hm : Marks P C m') (hfollows : Follows m' m)
    (hf : ∀ a, Marks P (D a) (f a)) :
    Marks P (fun s => C s ∨ ∃ a rest, m s = .ok (a, rest) ∧ D a rest) (m' >>= f) := by
  intro s l
  obtain ⟨new, hnew, hiff⟩ := hm s l
  show ∃ new, _ = l ++ new ∧ (_ ↔ C s ∨ ∃ a rest, m s = .ok (a, rest) ∧ D a rest)
  cases hs : m s with
  | error e =>
      obtain ⟨l', hl'⟩ := hfollows.error s l e hs
      rw [logAfter_error hl'] at hnew
      have hrun : (m' >>= f) (s, l) = .error (e, l') := by
        rw [bind_apply, hl']
        rfl
      refine ⟨new, by rw [logAfter_error hrun, hnew], hiff.trans ?_⟩
      constructor
      · exact .inl
      · rintro (hC | ⟨a, rest, ⟨⟩, -⟩)
        exact hC
  | ok p =>
      obtain ⟨l', hl'⟩ := hfollows.ok s l p.1 p.2 hs
      rw [logAfter_ok hl'] at hnew
      obtain ⟨new₂, hnew₂, hiff₂⟩ := hf p.1 p.2 l'
      have hrun : (m' >>= f) (s, l) = f p.1 (p.2, l') := by
        rw [bind_apply, hl']
        rfl
      refine ⟨new ++ new₂, ?_, ?_⟩
      · rw [logAfter, hrun, ← List.append_assoc, ← hnew]
        exact hnew₂
      · constructor
        · rintro ⟨x, hx, hP⟩
          rcases List.mem_append.mp hx with hx | hx
          · exact .inl (hiff.mp ⟨x, hx, hP⟩)
          · exact .inr ⟨p.1, p.2, rfl, hiff₂.mp ⟨x, hx, hP⟩⟩
        · rintro (hC | ⟨a, rest, ⟨⟩, hD⟩)
          · obtain ⟨x, hx, hP⟩ := hiff.mpr hC
            exact ⟨x, List.mem_append_left _ hx, hP⟩
          · obtain ⟨x, hx, hP⟩ := hiff₂.mpr hD
            exact ⟨x, List.mem_append_right _ hx, hP⟩

theorem Marks.map {m' : Metered τ ε ω α} {m : Reader τ ε α} (g : α → β) (hm : Marks P C m')
    (hfollows : Follows m' m) : Marks P C (g <$> m') :=
  (hm.bind hfollows fun a => Marks.pure (g a)).congr fun s => by simp

/-- **Loop rule**: in some round, whatever the rounds make of what they read. -/
theorem Marks.iterate {f : β → Metered τ ε ω β} {m : Reader τ ε α} {put : β → α → β}
    (h : ∀ b, Marks P C (f b)) (hfollows : ∀ b, Follows (f b) (put b <$> m)) (n : Nat) (b : β) :
    Marks P (fun s => ∃ k < n, ∃ rest, Reader.Skips m k s rest ∧ C rest)
      (Metered.iterate f n b) := by
  induction n generalizing b with
  | zero => exact (Marks.pure b).congr fun s => by simp
  | succ n ih =>
      refine ((h b).bind (hfollows b) ih).congr fun s => ?_
      constructor
      · rintro (hC | ⟨b', s', hok, k, hk, rest, hskips, hC⟩)
        · exact ⟨0, Nat.succ_pos n, s, rfl, hC⟩
        · obtain ⟨a, ha, -⟩ := Reader.map_eq_ok.mp hok
          exact ⟨k + 1, Nat.succ_lt_succ hk, rest, ⟨a, s', ha, hskips⟩, hC⟩
      · rintro ⟨k, hk, rest, hskips, hC⟩
        cases k with
        | zero =>
            cases hskips
            exact .inl hC
        | succ k =>
            obtain ⟨a, s', ha, hskips⟩ := hskips
            exact .inr ⟨put b a, s', Reader.map_eq_ok.mpr ⟨a, ha, rfl⟩, k,
              Nat.lt_of_succ_lt_succ hk, rest, hskips, hC⟩

end

/-! ## what a value is worth -/

section
variable {w : ω → Nat} {c : Nat} {m : Metered τ ε ω α} {g : α → Nat}

theorem Gains.pure {a : α} (h : g a ≤ c) : Gains w c (Pure.pure a : Metered τ ε ω α) g := by
  rintro s l b rest l' ⟨⟩
  exact ⟨[], (List.append_nil l).symm, h⟩

theorem Gains.lift {m : Reader τ ε α} {log : α → List τ → List ω}
    (h : ∀ a rest, g a ≤ c + ((log a rest).map w).sum) : Gains w c (Metered.lift m log) g := by
  intro s l a rest l' hs
  unfold Metered.lift at hs
  cases hm : m s with
  | error e =>
      simp only [hm] at hs
      cases hs
  | ok p =>
      simp only [hm] at hs
      cases hs
      exact ⟨_, rfl, h _ _⟩

/-- Sequencing: the second part goes on with what the first one is worth. -/
theorem Gains.bind {f : α → Metered τ ε ω β} {h : β → Nat} (hm : Gains w c m g)
    (hf : ∀ a, Gains w (g a) (f a) h) : Gains w c (m >>= f) h := by
  intro s l b rest l' hs
  rw [bind_apply] at hs
  cases hm' : m (s, l) with
  | error p =>
      rw [hm'] at hs
      cases hs
  | ok p =>
      obtain ⟨a, s', l₁⟩ := p
      rw [hm'] at hs
      obtain ⟨new₁, rfl, hle₁⟩ := hm s l a s' l₁ hm'
      obtain ⟨new₂, rfl, hle₂⟩ := hf a s' _ b rest l' hs
      refine ⟨new₁ ++ new₂, List.append_assoc .., ?_⟩
      rw [List.map_append, List.sum_append]
      omega

/-- What is there before a reader is there after it. -/
theorem Gains.add (hm : Gains w c m g) (d : Nat) : Gains w (d + c) m fun a => d + g a := by
  intro s l a rest l' hs
  obtain ⟨new, hnew, hle⟩ := hm s l a rest l' hs
  exact ⟨new, hnew, by rw [Nat.add_assoc]; exact Nat.add_le_add_left hle d⟩

theorem Gains.map {f : α → β} {h : β → Nat} (hm : Gains w c m g) (hf : ∀ a, h (f a) ≤ g a) :
    Gains w c (f <$> m) h :=
  hm.bind fun a => Gains.pure (hf a)

/-- A loop whose rounds log what they add to the accumulator. -/
theorem Gains.iterate {f : β → Metered τ ε ω β} {h : β → Nat}
    (hf : ∀ b, Gains w (h b) (f b) h) (n : Nat) (b : β) :
    Gains w (h b) (Metered.iterate f n b) h := by
  induction n generalizing b with
  | zero => exact Gains.pure (Nat.le_refl _)
  | succ n ih => exact (hf b).bind ih

end

end Metered
