/-!
# XzmjxRpc.Lib.Reader

Readers over a stream of tokens: a `Reader τ ε α` takes tokens off the front
of a list and returns a value and the tokens left, or an error.  It is the
state monad over the stream on top of `Except ε`, so readers are written in
`do` notation.

`Reads m xs a` says that `m` reads exactly the tokens `xs`, whatever follows
them, and returns `a`.  The rules below follow the structure of a reader —
`pure`, bind, `map`, a counted loop — so that a round-trip proof is one rule
for each operation of the decoder.

`Takes m f` says that `m`, when it succeeds with `a` on any stream, takes at
least `f a` tokens off it; it has the same rules.

`Pays c m f` is `Takes` for a reader that goes on with a value: what it takes
and the `c` that the value has cost make at least `f a`.

`Scans E m` says that `m` decides on what it takes: whenever it succeeds, it
reads exactly the tokens it took off, and what it fails with is in `E`.
-/

/-- A reader of tokens `τ` that may fail with `ε`. -/
abbrev Reader (τ ε α : Type) := StateT (List τ) (Except ε) α

namespace Reader

variable {τ ε α β : Type}

/-- Take `n` tokens, or fail with `e` when fewer are left. -/
def take (e : ε) (n : Nat) : Reader τ ε (List τ) := fun s =>
  if s.length < n then .error e else .ok (s.take n, s.drop n)

/-- Take one token, or fail with `e` when none is left. -/
def next (e : ε) : Reader τ ε τ
  | [] => .error e
  | x :: xs => .ok (x, xs)

/-- Run `f` over the accumulator `n` times. -/
def iterate (f : β → Reader τ ε β) : Nat → β → Reader τ ε β
  | 0, b => pure b
  | n + 1, b => do iterate f n (← f b)

/-- Reading `k` values with `m` from `s` leaves `rest`. -/
def Skips (m : Reader τ ε α) : Nat → List τ → List τ → Prop
  | 0, s, rest => s = rest
  | k + 1, s, rest => ∃ a s', m s = .ok (a, s') ∧ Skips m k s' rest

/-- `m` reads exactly `xs`, whatever follows, and returns `a`. -/
def Reads (m : Reader τ ε α) (xs : List τ) (a : α) : Prop :=
  ∀ rest, m (xs ++ rest) = .ok (a, rest)

/-- When `m` succeeds with `a`, it takes at least `f a` tokens. -/
def Takes (m : Reader τ ε α) (f : α → Nat) : Prop :=
  ∀ s a rest, m s = .ok (a, rest) → f a + rest.length ≤ s.length

/-- When `m` succeeds with `a`, the tokens it takes and `c` more make at least
`f a`. -/
def Pays (c : Nat) (m : Reader τ ε α) (f : α → Nat) : Prop :=
  ∀ s a rest, m s = .ok (a, rest) → f a + rest.length ≤ c + s.length

/-- `m` succeeds by reading the tokens it takes, whatever follows them, and
fails only with what `E` admits. -/
structure Scans (E : ε → Prop) (m : Reader τ ε α) : Prop where
  reads : ∀ s a rest, m s = .ok (a, rest) → ∃ xs, s = xs ++ rest ∧ Reads m xs a
  fails : ∀ s e, m s = .error e → E e

/-- `take` cuts the stream after `n` tokens. -/
theorem take_eq_ok {e : ε} {n : Nat} {s xs rest : List τ} :
    take e n s = .ok (xs, rest) ↔ s = xs ++ rest ∧ xs.length = n := by
  unfold take
  constructor
  · intro h
    split at h
    · cases h
    · next hn =>
        cases h
        exact ⟨(List.take_append_drop n s).symm, by rw [List.length_take]; omega⟩
  · rintro ⟨rfl, rfl⟩
    rw [if_neg (by simp), List.take_left, List.drop_left]

/-! ## rules -/

theorem Reads.pure (a : α) : Reads (Pure.pure a : Reader τ ε α) [] a := fun _ => rfl

/-- Sequencing: what the two parts read stands one after the other. -/
theorem Reads.bind {m : Reader τ ε α} {f : α → Reader τ ε β} {xs ys : List τ} {a : α} {b : β}
    (hm : Reads m xs a) (hf : Reads (f a) ys b) : Reads (m >>= f) (xs ++ ys) b := by
  intro rest
  show (m (xs ++ ys ++ rest) >>= fun p => f p.1 p.2) = _
  rw [List.append_assoc, hm (ys ++ rest)]
  exact hf rest

/-- Sequencing with a part that reads nothing. -/
theorem Reads.bind_nil {m : Reader τ ε α} {f : α → Reader τ ε β} {xs : List τ} {a : α} {b : β}
    (hm : Reads m xs a) (hf : Reads (f a) [] b) : Reads (m >>= f) xs b := by
  have h := hm.bind hf
  rwa [List.append_nil] at h

/-- Post-processing the value reads nothing more. -/
theorem Reads.map {m : Reader τ ε α} {xs : List τ} {a : α} (f : α → β) (hm : Reads m xs a) :
    Reads (f <$> m) xs (f a) :=
  hm.bind_nil (f := fun x => Pure.pure (f x)) (Reads.pure (f a))

theorem Reads.take (e : ε) {xs : List τ} {n : Nat} (h : xs.length = n) :
    Reads (Reader.take e n) xs xs := fun _ =>
  take_eq_ok.mpr ⟨rfl, h⟩

theorem Reads.next (e : ε) (x : τ) : Reads (Reader.next e) [x] x := fun _ => rfl

/-- **Loop rule**: a loop that folds `step` over `xs` reads the encodings of
its elements one after the other. -/
theorem Reads.iterate {γ : Type} {f : β → Reader τ ε β} {enc : γ → List τ} {step : β → γ → β}
    (cs : List γ) (h : ∀ c ∈ cs, ∀ b, Reads (f b) (enc c) (step b c)) (b : β) :
    Reads (Reader.iterate f cs.length b) (cs.flatMap enc) (cs.foldl step b) := by
  induction cs generalizing b with
  | nil => exact Reads.pure b
  | cons c cs ih =>
      rw [List.flatMap_cons, List.foldl_cons]
      have hc := h c List.mem_cons_self b
      exact hc.bind (ih (fun c' hc' => h c' (List.mem_cons_of_mem _ hc')) (step b c))

/-- What every round leaves alone, the loop leaves alone. -/
theorem iterate_map {f : β → Reader τ ε β} {g : β → β} (h : ∀ b, f (g b) = g <$> f b) (n : Nat)
    (b : β) : iterate f n (g b) = g <$> iterate f n b := by
  induction n generalizing b with
  | zero => exact (map_pure g b).symm
  | succ n ih =>
      rw [iterate, iterate, h, bind_map_left, map_bind]
      exact congrArg (f b >>= ·) (funext ih)

/-- What `>>=` succeeds with. -/
theorem bind_eq_ok {m : Reader τ ε α} {f : α → Reader τ ε β} {s rest : List τ} {b : β} :
    (m >>= f) s = .ok (b, rest) ↔ ∃ a s', m s = .ok (a, s') ∧ f a s' = .ok (b, rest) := by
  change (m s >>= fun p => f p.1 p.2) = _ ↔ _
  cases m s with
  | error e => simp [bind, Except.bind]
  | ok p =>
      constructor
      · exact fun h => ⟨p.1, p.2, rfl, h⟩
      · rintro ⟨a, s', ⟨⟩, h⟩
        exact h

/-- What `<$>` succeeds with. -/
theorem map_eq_ok {m : Reader τ ε α} {f : α → β} {s rest : List τ} {b : β} :
    (f <$> m) s = .ok (b, rest) ↔ ∃ a, m s = .ok (a, rest) ∧ f a = b := by
  rw [map_eq_pure_bind, bind_eq_ok]
  constructor
  · rintro ⟨a, s', ha, ⟨⟩⟩
    exact ⟨a, ha, rfl⟩
  · rintro ⟨a, ha, rfl⟩
    exact ⟨a, rest, ha, rfl⟩

/-! ## rules for the number of tokens taken -/

theorem Takes.mono {m : Reader τ ε α} {f g : α → Nat} (hm : Takes m f) (h : ∀ a, g a ≤ f a) :
    Takes m g := fun s a rest hs =>
  Nat.le_trans (Nat.add_le_add_right (h a) rest.length) (hm s a rest hs)

theorem Takes.pure (a : α) : Takes (Pure.pure a : Reader τ ε α) fun _ => 0 := by
  rintro s b rest ⟨⟩
  simp

/-- Sequencing: the numbers add up. -/
theorem Takes.bind {m : Reader τ ε α} {f : α → Reader τ ε β} {j : Nat} {g : β → Nat}
    (hm : Takes m fun _ => j) (hf : ∀ a, Takes (f a) g) : Takes (m >>= f) fun b => j + g b := by
  intro s b rest h
  cases hs : m s with
  | error e =>
      have hbind : (m >>= f) s = .error e := by
        show (m s >>= fun p => f p.1 p.2) = _
        rw [hs]
        rfl
      rw [hbind] at h
      cases h
  | ok p =>
      have hbind : (m >>= f) s = f p.1 p.2 := by
        show (m s >>= fun p => f p.1 p.2) = _
        rw [hs]
        rfl
      have h₁ := hm s p.1 p.2 hs
      have h₂ := hf p.1 p.2 b rest (hbind ▸ h)
      simp only at h₁ ⊢
      omega

theorem Takes.take (e : ε) (n : Nat) :
    Takes (Reader.take e n : Reader τ ε (List τ)) List.length := by
  intro s xs rest h
  obtain ⟨rfl, -⟩ := take_eq_ok.mp h
  exact Nat.le_of_eq List.length_append.symm

theorem Takes.take_count (e : ε) (n : Nat) :
    Takes (Reader.take e n : Reader τ ε (List τ)) fun _ => n := by
  intro s xs rest h
  obtain ⟨rfl, rfl⟩ := take_eq_ok.mp h
  exact Nat.le_of_eq List.length_append.symm

theorem Takes.next (e : ε) : Takes (Reader.next e : Reader τ ε τ) fun _ => 1 := by
  intro s x rest h
  cases s <;> cases h
  simp [Nat.add_comm]

theorem Takes.map {m : Reader τ ε α} {j : Nat} (f : α → β) (hm : Takes m fun _ => j) :
    Takes (f <$> m) fun _ => j :=
  hm.bind (f := fun a => Pure.pure (f a)) (g := fun _ => 0) fun a => Takes.pure (f a)

/-- A loop whose rounds take at least one token each takes one for each
round. -/
theorem Takes.iterate {f : β → Reader τ ε β} (h : ∀ b, Takes (f b) fun _ => 1) (n : Nat) (b : β) :
    Takes (Reader.iterate f n b) fun _ => n := by
  induction n generalizing b with
  | zero => exact Takes.pure b
  | succ n ih => exact ((h b).bind ih).mono fun _ => by omega

/-! ## rules for what a value costs -/

theorem Pays.takes {m : Reader τ ε α} {f : α → Nat} (h : Pays 0 m f) : Takes m f :=
  fun s a rest hs => Nat.zero_add s.length ▸ h s a rest hs

theorem Takes.pays {m : Reader τ ε α} {f : α → Nat} (h : Takes m f) (c : Nat) :
    Pays c m fun a => c + f a := fun s a rest hs => by
  have := h s a rest hs
  show c + f a + rest.length ≤ c + s.length
  omega

theorem Pays.mono {c : Nat} {m : Reader τ ε α} {f g : α → Nat} (hm : Pays c m f)
    (h : ∀ a, g a ≤ f a) : Pays c m g := fun s a rest hs =>
  Nat.le_trans (Nat.add_le_add_right (h a) rest.length) (hm s a rest hs)

theorem Pays.pure {c : Nat} {a : α} {f : α → Nat} (h : f a ≤ c) :
    Pays c (Pure.pure a : Reader τ ε α) f := by
  rintro s b rest ⟨⟩
  exact Nat.add_le_add_right h _

/-- Sequencing: the second part goes on with what the first one has cost. -/
theorem Pays.bind {c : Nat} {m : Reader τ ε α} {f : α → Reader τ ε β} {g : α → Nat} {h : β → Nat}
    (hm : Pays c m g) (hf : ∀ a, Pays (g a) (f a) h) : Pays c (m >>= f) h := by
  intro s b rest hs
  obtain ⟨a, s', ha, hb⟩ := bind_eq_ok.mp hs
  exact Nat.le_trans (hf a s' b rest hb) (hm s a s' ha)

theorem Pays.map {c : Nat} {m : Reader τ ε α} {f : α → β} {g : α → Nat} {h : β → Nat}
    (hm : Pays c m g) (hf : ∀ a, h (f a) ≤ g a) : Pays c (f <$> m) h :=
  hm.bind (f := fun a => Pure.pure (f a)) fun a => Pays.pure (hf a)

/-- A loop whose rounds pay for what they add to the accumulator. -/
theorem Pays.iterate {f : β → Reader τ ε β} {g : β → Nat} (h : ∀ b, Pays (g b) (f b) g) (n : Nat)
    (b : β) : Pays (g b) (Reader.iterate f n b) g := by
  induction n generalizing b with
  | zero => exact Pays.pure (Nat.le_refl _)
  | succ n ih => exact (h b).bind ih

/-- A loop whose rounds add one at most adds no more than its count. -/
theorem iterate_le {f : β → Reader τ ε β} {g : β → Nat}
    (h : ∀ b s b' rest, f b s = .ok (b', rest) → g b' ≤ g b + 1) {n : Nat} {b b' : β}
    {s rest : List τ} (hs : Reader.iterate f n b s = .ok (b', rest)) : g b' ≤ g b + n := by
  induction n generalizing b s with
  | zero =>
      cases hs
      exact Nat.le_refl _
  | succ n ih =>
      obtain ⟨b₁, s₁, hb₁, hrounds⟩ := bind_eq_ok.mp hs
      have hfirst := h b s b₁ s₁ hb₁
      have hrest := ih hrounds
      omega

/-! ## rules for scanning -/

/-- A scanning reader gives no tokens back. -/
theorem Scans.takes {E : ε → Prop} {m : Reader τ ε α} (h : Scans E m) : Takes m fun _ => 0 := by
  intro s a rest hs
  obtain ⟨xs, rfl, -⟩ := h.reads s a rest hs
  simp

/-- A scanning reader succeeds exactly where a part it takes whole stands at
the front. -/
theorem Scans.eq_ok_iff {E : ε → Prop} {m : Reader τ ε α} (h : Scans E m) {s rest : List τ}
    {a : α} :
    m s = .ok (a, rest) ↔ ∃ xs, s = xs ++ rest ∧ m xs = .ok (a, []) := by
  constructor
  · intro hs
    obtain ⟨xs, rfl, hxs⟩ := h.reads s a rest hs
    have hnil := hxs []
    rw [List.append_nil] at hnil
    exact ⟨xs, rfl, hnil⟩
  · rintro ⟨xs, rfl, hxs⟩
    obtain ⟨ys, hys, hreads⟩ := h.reads xs a [] hxs
    rw [List.append_nil] at hys
    rw [hys]
    exact hreads rest

theorem bind_apply (m : Reader τ ε α) (f : α → Reader τ ε β) (s : List τ) :
    (m >>= f) s = m s >>= fun p => f p.1 p.2 := rfl

theorem Scans.mono {E E' : ε → Prop} {m : Reader τ ε α} (h : Scans E m) (hE : ∀ e, E e → E' e) :
    Scans E' m :=
  ⟨h.reads, fun s e hs => hE e (h.fails s e hs)⟩

theorem Scans.pure (E : ε → Prop) (a : α) : Scans E (Pure.pure a : Reader τ ε α) where
  reads := by
    rintro s b rest ⟨⟩
    exact ⟨[], rfl, Reads.pure a⟩
  fails := by
    rintro s e ⟨⟩

/-- Sequencing: the second part starts where the first one stopped. -/
theorem Scans.bind {E : ε → Prop} {m : Reader τ ε α} {f : α → Reader τ ε β} (hm : Scans E m)
    (hf : ∀ a, Scans E (f a)) : Scans E (m >>= f) where
  reads := by
    intro s b rest h
    rw [bind_apply] at h
    cases hs : m s with
    | error e' =>
        rw [hs] at h
        cases h
    | ok p =>
        obtain ⟨a, s'⟩ := p
        rw [hs] at h
        obtain ⟨xs, rfl, hxs⟩ := hm.reads s a s' hs
        obtain ⟨ys, rfl, hys⟩ := (hf a).reads s' b rest h
        exact ⟨xs ++ ys, (List.append_assoc _ _ _).symm, hxs.bind hys⟩
  fails := by
    intro s e h
    rw [bind_apply] at h
    cases hs : m s with
    | error e₁ =>
        rw [hs] at h
        cases h
        exact hm.fails s e hs
    | ok p =>
        rw [hs] at h
        exact (hf p.1).fails p.2 e h

theorem Scans.map {E : ε → Prop} {m : Reader τ ε α} (f : α → β) (hm : Scans E m) :
    Scans E (f <$> m) :=
  hm.bind (f := fun x => Pure.pure (f x)) fun a => Scans.pure E (f a)

theorem Scans.take {E : ε → Prop} {e : ε} (he : E e) (n : Nat) :
    Scans E (Reader.take e n : Reader τ ε (List τ)) where
  reads := by
    intro s xs rest h
    obtain ⟨rfl, hlen⟩ := take_eq_ok.mp h
    exact ⟨xs, rfl, Reads.take e hlen⟩
  fails := by
    intro s e' h
    unfold Reader.take at h
    split at h <;> cases h
    exact he

theorem Scans.next {E : ε → Prop} {e : ε} (he : E e) :
    Scans E (Reader.next e : Reader τ ε τ) where
  reads := by
    intro s x rest h
    cases s <;> cases h
    exact ⟨[x], rfl, Reads.next e x⟩
  fails := by
    intro s e' h
    cases s <;> cases h
    exact he

/-- A loop of scanning rounds scans. -/
theorem Scans.iterate {E : ε → Prop} {f : β → Reader τ ε β} (h : ∀ b, Scans E (f b)) (n : Nat)
    (b : β) : Scans E (Reader.iterate f n b) := by
  induction n generalizing b with
  | zero => exact Scans.pure E b
  | succ n ih => exact (h b).bind ih

end Reader
