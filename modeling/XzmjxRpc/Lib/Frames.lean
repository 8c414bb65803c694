/-!
# XzmjxRpc.Lib.Frames

Messages on a stream of tokens.  A `FrameCodec` is an encoder and a receiver such
that the receiver takes an encoded message off the front of any stream, and
reports the end of the stream where a part of the message is missing.  So a
queue of messages and the stream of their encodings are one thing:

* `Frames.received` — what is received is the first message of the queue, and
  what is left on the stream is the rest of the queue;
* `receiveMany_prefix` — of a stream that was cut off anywhere, the receiver
  gets messages that are whole, in order, and nothing else.

Nothing here knows what the messages and tokens are.
-/

/-- An encoder of the messages that are `Ok`, and a receiver with results `ρ`. -/
structure FrameCodec (α : Type u) (τ : Type v) (ρ : Type w) where
  Ok : α → Prop
  encode : α → List τ
  /-- One receive: its result and the stream after it. -/
  receive : List τ → ρ × List τ
  /-- The result for a message. -/
  got : α → ρ
  /-- The result at the end of the stream. -/
  closed : ρ
  receive_encode : ∀ x, Ok x → ∀ rest, receive (encode x ++ rest) = (got x, rest)
  receive_partial : ∀ x, Ok x → ∀ ts, ts <+: encode x → ts ≠ encode x → receive ts = (closed, [])
  receive_nil : receive [] = (closed, [])
  got_injective : ∀ x y, got x = got y → x = y
  got_ne_closed : ∀ x, got x ≠ closed

namespace FrameCodec

variable {α : Type u} {τ : Type v} {ρ : Type w} (F : FrameCodec α τ ρ)

/-- The stream holds the encodings of the messages, one after the other. -/
structure Frames (xs : List α) (ts : List τ) : Prop where
  ok : ∀ x ∈ xs, F.Ok x
  stream : ts = xs.flatMap F.encode

variable {F} {xs : List α} {ts : List τ} {x : α}

theorem Frames.nil : F.Frames [] [] := ⟨nofun, rfl⟩

/-- A message is sent. -/
theorem Frames.append (h : F.Frames xs ts) (hx : F.Ok x) :
    F.Frames (xs ++ [x]) (ts ++ F.encode x) where
  ok y hy := by
    rcases List.mem_append.mp hy with hy | hy
    · exact h.ok y hy
    · exact List.mem_singleton.mp hy ▸ hx
  stream := by rw [h.stream, List.flatMap_append, List.flatMap_singleton]

/-- The first message of the queue is received next. -/
theorem Frames.receive_cons (h : F.Frames (x :: xs) ts) :
    F.receive ts = (F.got x, xs.flatMap F.encode) := by
  rw [h.stream, List.flatMap_cons]
  exact F.receive_encode x (h.ok x List.mem_cons_self) _

theorem Frames.tail (h : F.Frames (x :: xs) ts) : F.Frames xs (xs.flatMap F.encode) :=
  ⟨fun y hy => h.ok y (List.mem_cons_of_mem _ hy), rfl⟩

/-- **A byte queue is a message queue**: a message that is received is the
first one, and the rest of the stream holds the others. -/
theorem Frames.received (h : F.Frames xs ts) {y : α} {rest : List τ}
    (hd : F.receive ts = (F.got y, rest)) : ∃ ys, xs = y :: ys ∧ F.Frames ys rest := by
  cases xs with
  | nil =>
      rw [h.stream, List.flatMap_nil, F.receive_nil] at hd
      exact absurd (congrArg Prod.fst hd).symm (F.got_ne_closed y)
  | cons x xs =>
      rw [h.receive_cons] at hd
      have hx : x = y := F.got_injective x y (congrArg Prod.fst hd)
      have hrest : xs.flatMap F.encode = rest := congrArg Prod.snd hd
      subst hx hrest
      exact ⟨xs, rfl, h.tail⟩

/-! ## a stream that was cut off -/

/-- A receive leaves a stream that was cut off, of the messages behind. -/
theorem receive_prefix (hok : ∀ x ∈ xs, F.Ok x) (h : ts <+: xs.flatMap F.encode) :
    ∃ ys, ys <:+ xs ∧ (F.receive ts).2 <+: ys.flatMap F.encode := by
  cases xs with
  | nil =>
      rw [List.prefix_nil.mp h, F.receive_nil]
      exact ⟨[], List.suffix_refl _, List.nil_prefix⟩
  | cons x xs =>
      have hx := hok x List.mem_cons_self
      rw [List.flatMap_cons] at h
      by_cases hwhole : F.encode x <+: ts
      · obtain ⟨rest, rfl⟩ := hwhole
        rw [F.receive_encode x hx]
        exact ⟨xs, List.suffix_cons x xs, (List.prefix_append_right_inj _).mp h⟩
      · have hpart : ts <+: F.encode x :=
          (List.prefix_or_prefix_of_prefix h
            (List.prefix_append (F.encode x) _)).resolve_right hwhole
        rw [F.receive_partial x hx ts hpart fun heq => hwhole (heq ▸ List.prefix_refl _)]
        exact ⟨[], List.nil_suffix, List.nil_prefix⟩

variable (F) in
/-- `n` receives and their results. -/
def receiveMany : Nat → List τ → List ρ × List τ
  | 0, ts => ([], ts)
  | n + 1, ts =>
      let out := F.receive ts
      let outs := receiveMany n out.2
      (out.1 :: outs.1, outs.2)

/-- Once the stream has ended, there is nothing more to receive. -/
theorem receiveMany_nil (n : Nat) : F.receiveMany n [] = (List.replicate n F.closed, []) := by
  induction n with
  | zero => rfl
  | succ n ih => rw [receiveMany, F.receive_nil, ih, List.replicate_succ]

/-- **A stream cut off anywhere** gives messages that are whole, in order, and
then its end. -/
theorem receiveMany_prefix (n : Nat) (hok : ∀ x ∈ xs, F.Ok x) (h : ts <+: xs.flatMap F.encode) :
    ∃ ys, ys <+: xs ∧ ys.flatMap F.encode <+: ts ∧
      (F.receiveMany n ts).1 = ys.map F.got ++ List.replicate (n - ys.length) F.closed := by
  induction n generalizing xs ts with
  | zero => exact ⟨[], List.nil_prefix, List.nil_prefix, rfl⟩
  | succ n ih =>
      rw [receiveMany]
      cases xs with
      | nil =>
          have hnil : ts = [] := List.prefix_nil.mp h
          refine ⟨[], List.nil_prefix, List.nil_prefix, ?_⟩
          rw [hnil, F.receive_nil, receiveMany_nil]
          rfl
      | cons x xs =>
          have hx := hok x List.mem_cons_self
          rw [List.flatMap_cons] at h
          by_cases hwhole : F.encode x <+: ts
          · obtain ⟨rest, rfl⟩ := hwhole
            rw [F.receive_encode x hx]
            obtain ⟨ys, hys, hbytes, hmany⟩ := ih (fun y hy => hok y (List.mem_cons_of_mem _ hy))
              ((List.prefix_append_right_inj _).mp h)
            refine ⟨x :: ys, List.cons_prefix_cons.mpr ⟨rfl, hys⟩, ?_, ?_⟩
            · rw [List.flatMap_cons]
              exact (List.prefix_append_right_inj _).mpr hbytes
            · rw [hmany, List.length_cons, Nat.add_sub_add_right]
              rfl
          · -- the stream ends inside this message
            have hpart : ts <+: F.encode x := by
              rcases List.prefix_or_prefix_of_prefix h (List.prefix_append (F.encode x) _) with
                hle | hle
              · exact hle
              · exact absurd hle hwhole
            have hne : ts ≠ F.encode x := fun heq => hwhole (heq ▸ List.prefix_refl _)
            refine ⟨[], List.nil_prefix, List.nil_prefix, ?_⟩
            rw [F.receive_partial x hx ts hpart hne, receiveMany_nil]
            rfl

end FrameCodec
