import XzmjxRpc.Rpc.Send.Framing

/-!
# XzmjxRpc.Rpc.Send.Fitting

The sizes of the messages on a wire.

`SocketStream::write` faults on a message that is longer than a node before a
byte of it is sent.  So what the wire of a session spells are messages of up to
a node, whatever messages `sendProtocol` is called with (`fitting_of_run`).
-/

namespace XzmjxRpc
namespace Send

section
variable [Machine]

/-- The message fits into one node of its buffer. -/
def OneNode (m : Protocol) : Prop := (encoded m).length ≤ defaultBaseSize

/-- The wire is messages that were sent and fit a node, and then `part`, which
begins one more. -/
def State.Spells (s : State) (part : Bytes) : Prop :=
  ∃ ms : List Protocol, (∀ m ∈ ms, m ∈ s.sent ∧ OneNode m) ∧ s.wire = ms.flatMap encoded ++ part ∧
    (part = [] ∨ ∃ m ∈ s.sent, OneNode m ∧ part <+: encoded m)

/-- The part is what the holder of the mutex has written, unless a message was
torn. -/
def Fitting (s : State) : Prop := ∃ part, s.Spells part ∧ (s.torn = false → part = s.progress)

theorem init_fitting : Fitting init := ⟨[], ⟨[], nofun, rfl, .inl rfl⟩, fun _ => rfl⟩

section
variable {s t : State} {part : Bytes}

theorem State.Spells.mono (h : s.Spells part) (hwire : t.wire = s.wire)
    (hsent : ∀ m ∈ s.sent, m ∈ t.sent) : t.Spells part := by
  obtain ⟨ms, hms, hold, hpart⟩ := h
  refine ⟨ms, fun m hm => ⟨hsent m (hms m hm).1, (hms m hm).2⟩, hwire.trans hold, ?_⟩
  exact hpart.imp_right fun ⟨m, hm, hrest⟩ => ⟨m, hsent m hm, hrest⟩

/-- The part has become a whole message. -/
theorem State.Spells.whole {msg : Protocol} (h : s.Spells (encoded msg)) (hmem : msg ∈ s.sent)
    (hone : OneNode msg) : s.Spells [] := by
  obtain ⟨ms, hms, hold, -⟩ := h
  refine ⟨ms ++ [msg], ?_, ?_, .inl rfl⟩
  · intro m hm
    rcases List.mem_append.mp hm with hm | hm
    · exact hms m hm
    · exact List.mem_singleton.mp hm ▸ ⟨hmem, hone⟩
  · rw [hold, List.flatMap_append, List.flatMap_singleton, List.append_nil]

/-- The part grows. -/
theorem State.Spells.grow {bytes : Bytes} {msg : Protocol} (h : s.Spells part)
    (hwire : t.wire = s.wire ++ bytes) (hsent : t.sent = s.sent) (hmem : msg ∈ s.sent)
    (hone : OneNode msg) (hpre : part ++ bytes <+: encoded msg) : t.Spells (part ++ bytes) := by
  obtain ⟨ms, hms, hold, -⟩ := h
  refine ⟨ms, by rwa [hsent], ?_, .inr ⟨msg, hsent ▸ hmem, hone, hpre⟩⟩
  rw [hwire, hold, List.append_assoc]

/-! ## one step -/

/-- A step that leaves the wire and what was written of a message alone. -/
theorem Fitting.of_progress (h : Fitting s) (hwire : t.wire = s.wire)
    (hsent : ∀ m ∈ s.sent, m ∈ t.sent) (htorn : t.torn = s.torn)
    (hprogress : t.progress = s.progress) : Fitting t := by
  obtain ⟨part, hspells, hpart⟩ := h
  refine ⟨part, hspells.mono hwire hsent, fun ht => ?_⟩
  rw [hprogress]
  exact hpart (htorn ▸ ht)

variable {c : Nat} {bt : ByteArray Byte}

/-- A send that ends. -/
theorem Fitting.finish {length : Nat} {left : Int} (h : Fitting s) (hf : Framing s)
    (hp : s.senders c = .writing bt length left) : Fitting (s.finish c bt) := by
  have hok := hf.senders c
  rw [hp] at hok
  obtain ⟨msg, f, hc, -⟩ := hok
  have hmutex : s.mutex = some c := hf.holder c (by rw [hp]; trivial)
  have hprogress : s.progress = bt.content.take bt.position := by
    rw [progress_of_mutex hmutex, hp, Phase.progress]
  obtain ⟨part, hspells, hpart⟩ := h
  have hsame {p : Bytes} (hs : s.Spells p) : (s.finish c bt).Spells p := hs.mono rfl fun _ h => h
  cases hpartly : partlyWritten bt with
  | true =>
      refine ⟨part, hsame hspells, fun ht => ?_⟩
      have ht : (s.torn || partlyWritten bt) = false := ht
      rw [hpartly, Bool.or_true] at ht
      cases ht
  | false =>
      by_cases ht : s.torn = false
      · refine ⟨[], ?_, fun _ => rfl⟩
        rw [hpart ht, hprogress] at hspells
        simp only [partlyWritten, Bool.and_eq_false_iff, decide_eq_false_iff_not] at hpartly
        rcases hpartly with h0 | hsize
        · rw [Nat.eq_zero_of_not_pos h0, List.take_zero] at hspells
          exact hsame hspells
        · have hlen := hc.refines.wf.length_content
          rw [List.take_of_length_le (by omega), hc.content] at hspells
          refine hsame (hspells.whole hc.sent ?_)
          have hshort := hc.short
          rw [hc.size, ← hc.refines.position] at hshort
          rw [OneNode, ← hc.data, hc.size]
          omega
      · refine ⟨part, hsame hspells, fun ht' => absurd ?_ ht⟩
        have ht' : (s.torn || partlyWritten bt) = false := ht'
        exact (Bool.or_eq_false_iff.mp ht').1

/-- A round that writes, on a wire that is not torn. -/
theorem Fitting.wrote {bt' : ByteArray Byte} {length k : Nat} {left : Int} {msg : Protocol}
    {f : FlatBuffer Byte} (h : Fitting s) (hf : Framing s)
    (hp : s.senders c = .writing bt length left) (hc : Carries s.sent bt msg f)
    (hfit : f.data.length ≤ defaultBaseSize) (hle : f.position + k ≤ f.data.length)
    (href : bt'.Refines (f.setPosition (f.position + k) hle)) (ht : s.torn = false)
    (hsenders : t.senders = (s.setSender c (.writing bt' length (left - k))).senders)
    (hmutex : t.mutex = s.mutex) (hsent : t.sent = s.sent)
    (hwire : t.wire = s.wire ++ f.toString.take k) : Fitting t := by
  have hmine : s.mutex = some c := hf.holder c (by rw [hp]; trivial)
  have hprogress : s.progress = f.data.take f.position := by
    rw [progress_of_mutex hmine, hp, Phase.progress, hc.refines.content, hc.refines.position]
  have hprogress' : t.progress = f.data.take (f.position + k) := by
    rw [progress_of_mutex (hmutex.trans hmine), hsenders, senders_setSender, if_pos rfl,
      Phase.progress, href.content, href.position]
    rfl
  have hgrown : f.data.take f.position ++ f.toString.take k = f.data.take (f.position + k) := by
    rw [List.take_add]
    rfl
  obtain ⟨part, hspells, hpart⟩ := h
  rw [hpart ht, hprogress] at hspells
  refine ⟨_, hspells.grow hwire hsent hc.sent ?_ ?_, fun _ => hgrown.trans hprogress'.symm⟩
  · rw [OneNode, ← hc.data]
    exact hfit
  · rw [hgrown, ← hc.data]
    exact List.take_prefix _ _

/-- **One step** keeps what the wire spells. -/
theorem Fitting.step {a : Action} (h : Fitting s) (hf : Framing s) (hsilent : SilentAfterTorn s a)
    (hs : Step s a t) : Fitting t := by
  cases hs with
  | @call c msg f bt hp _ _ _ =>
      exact h.of_progress rfl (fun _ hm => List.mem_cons_of_mem _ hm) rfl
        (progress_of_setSender (c := c) (p := .waiting bt) rfl rfl (by rw [hp]; rfl))
  | @acquire c bt hp hm =>
      have hok := hf.senders c
      rw [hp] at hok
      obtain ⟨msg, f, hc, h0⟩ := hok
      have hold : s.progress = [] := by rw [State.progress, hm]
      have hnew : (s.acquire c bt).progress = [] := by
        rw [progress_of_mutex (c := c) rfl]
        show ((s.setSender c (.writing bt bt.size (toInt bt.size))).senders c).progress = []
        rw [senders_setSender, if_pos rfl, Phase.progress, hc.refines.position, h0, List.take_zero]
      exact h.of_progress rfl (fun _ hm => hm) rfl (hnew.trans hold.symm)
  | @fault c length left bt e reply hp _ _ =>
      exact h.of_progress rfl (fun _ hm => hm) rfl
        (progress_of_setSender (c := c) (p := .crashed bt) rfl rfl (by rw [hp]; rfl))
  | finish hp _ => exact h.finish hf hp
  | @write c length left rt bt bt' bytes reply hp hleft hw =>
      have hok := hf.senders c
      rw [hp] at hok
      obtain ⟨msg, f, hc, hlen, hleft'⟩ := hok
      have hint := toInt_natCast_le length
      have hbase := hc.base
      rcases socketWrite_cases hc.refines (by omega) (by rw [hbase]; exact hc.short)
          (by rw [hbase]; decide) (by omega) hw with
        ⟨hrt, rfl, rfl⟩ | ⟨n, k, hle, rfl, hn, hfit, hk, rfl, rfl, href, hb⟩
      · have hstate : s.wrote c length left rt bt' [] = s.finish c bt' := by
          rw [State.wrote, List.append_nil, if_pos hrt]
        rw [hstate]
        exact h.finish hf hp
      · have ht : s.torn = false := by
          by_contra ht
          have hshort : ¬ (s.senders c).TooLong := by
            rw [hp, Phase.TooLong, ← hc.size]
            omega
          rcases hsilent (Bool.eq_true_of_not_eq_false ht) with hn' | hlong
          · omega
          · exact hshort hlong
        have hstate : s.wrote c length left k bt' (f.toString.take k) =
            { s with wire := s.wire ++ f.toString.take k }.setSender c
              (.writing bt' length (left - k)) := if_neg (by omega)
        rw [hstate]
        exact h.wrote hf hp hc (by omega) hle href ht rfl rfl rfl rfl

end

/-- **Sizes**: in every run in which nothing is written behind a message given
up half-way, the wire begins a concatenation of messages that were sent and fit
a node. -/
theorem fitting_of_run {s : State} {as : List Action}
    (h : Lts.Run (Lts.Restrict Step SilentAfterTorn) init as s) :
    ∃ ms : List Protocol, (∀ m ∈ ms, m ∈ s.sent ∧ OneNode m) ∧ s.wire <+: ms.flatMap encoded := by
  have hboth : Framing s ∧ Fitting s :=
    h.invariant (I := fun s => Framing s ∧ Fitting s) ⟨init_framing, init_fitting⟩
      fun _ _ _ ht hs => ⟨ht.1.step hs.1 hs.2, ht.2.step ht.1 hs.1 hs.2⟩
  obtain ⟨part, ⟨ms, hms, hwire, hpart⟩, -⟩ := hboth.2
  rcases hpart with rfl | ⟨m, hm, hone, hpre⟩
  · exact ⟨ms, hms, by rw [hwire, List.append_nil]⟩
  · refine ⟨ms ++ [m], fun m' hm' => ?_, ?_⟩
    · rcases List.mem_append.mp hm' with hm' | hm'
      · exact hms m' hm'
      · exact List.mem_singleton.mp hm' ▸ ⟨hm, hone⟩
    · rw [hwire, List.flatMap_append, List.flatMap_singleton]
      exact (List.prefix_append_right_inj _).mpr hpre

end

end Send
end XzmjxRpc
