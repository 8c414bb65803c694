import XzmjxRpc.Rpc.Send

/-!
# XzmjxRpc.Rpc.Send.Framing

What the peer of a session sees.  The mutex keeps a message in one piece while
it is written, whatever the order of the senders (`Framing`); but
`writeFixedSize` gives up inside a message when a write fails, and the next
sender starts with the head of its own message.  So the wire stays framed in
the runs in which nothing is written behind a message given up half-way
(`framed_of_run`), and not in the others (`not_framed_after_failure`).
-/

namespace XzmjxRpc
namespace Send

open Function

/-! ## who writes, and what -/

/-- The coroutine holds the mutex. -/
def Phase.Holds : Phase → Prop
  | .writing _ _ _ => True
  | .crashed _ => True
  | _ => False

/-- What a coroutine has put on the wire of the message it is at. -/
def Phase.progress : Phase → Bytes
  | .writing bt _ _ => bt.content.take bt.position
  | .crashed bt => bt.content.take bt.position
  | _ => []

/-- What the holder of the mutex has put on the wire of its message. -/
def State.progress (s : State) : Bytes :=
  match s.mutex with
  | none => []
  | some c => (s.senders c).progress

theorem senders_setSender (s : State) (c : Nat) (p : Phase) (c' : Nat) :
    (s.setSender c p).senders c' = if c' = c then p else s.senders c' := by
  simp only [State.setSender, update_apply]

/-- Who holds the mutex after a step of `c`: `c` itself, or who did before. -/
theorem holds_cases {s t : State} {c c' : Nat} {p : Phase}
    (hsenders : t.senders = (s.setSender c p).senders) (h : (t.senders c').Holds) :
    c' = c ∧ p.Holds ∨ c' ≠ c ∧ (s.senders c').Holds := by
  rw [hsenders, senders_setSender] at h
  by_cases hc : c' = c
  · rw [if_pos hc] at h
    exact .inl ⟨hc, h⟩
  · rw [if_neg hc] at h
    exact .inr ⟨hc, h⟩

theorem progress_of_mutex {s : State} {c : Nat} (h : s.mutex = some c) :
    s.progress = (s.senders c).progress := by
  rw [State.progress, h]

/-- A step of `c` that writes nothing. -/
theorem progress_of_setSender {s t : State} {c : Nat} {p : Phase}
    (hsenders : t.senders = (s.setSender c p).senders) (hmutex : t.mutex = s.mutex)
    (hp : p.progress = (s.senders c).progress) : t.progress = s.progress := by
  unfold State.progress
  rw [hmutex, hsenders]
  split
  · rfl
  · rw [senders_setSender]
    split
    · next hc => rw [hp, hc]
    · rfl

theorem silentAfterTorn_of_untorn {s : State} (h : s.torn = false) (a : Action) :
    SilentAfterTorn s a := by
  cases a with
  | write c reply =>
      cases reply with
      | notConnected => trivial
      | sendmsg n =>
          intro ht
          rw [h] at ht
          cases ht
  | _ => trivial

theorem forall_mem_append_singleton {ms sent : List Protocol} {msg : Protocol}
    (h : ∀ m ∈ ms, m ∈ sent) (hmsg : msg ∈ sent) : ∀ m ∈ ms ++ [msg], m ∈ sent := by
  intro m hm
  rcases List.mem_append.mp hm with hm | hm
  · exact h m hm
  · exact List.mem_singleton.mp hm ▸ hmsg

section
variable [Machine]

/-! ## the invariant -/

/-- The chunked buffer `bt` stands for `f`, the encoding of the message `msg`
that was sent; the cursor has left the start only if the message fits a node. -/
structure Carries (sent : List Protocol) (bt : ByteArray Byte) (msg : Protocol)
    (f : FlatBuffer Byte) : Prop where
  sent : msg ∈ sent
  data : f.data = encoded msg
  refines : bt.Refines f
  base : bt.baseSize = defaultBaseSize
  short : 0 < f.position → f.data.length ≤ defaultBaseSize

/-- What holds of a coroutine in each phase. -/
def Phase.Ok (sent : List Protocol) : Phase → Prop
  | .idle => True
  | .waiting bt => ∃ msg f, Carries sent bt msg f ∧ f.position = 0
  | .writing bt length left =>
      ∃ msg f, Carries sent bt msg f ∧ length = f.data.length ∧ left = toInt length - f.position
  | .crashed bt => ∃ msg f, Carries sent bt msg f

/-- **The framing invariant**: whole messages, then what the holder of the
mutex has written of its own; once torn, a framed wire that nobody adds to. -/
structure Framing (s : State) : Prop where
  senders : ∀ c, (s.senders c).Ok s.sent
  holder : ∀ c, (s.senders c).Holds → s.mutex = some c
  untorn : s.torn = false → ∃ ms : List Protocol, (∀ m ∈ ms, m ∈ s.sent) ∧
    s.wire = (ms.map encoded).flatten ++ s.progress
  torn : s.torn = true → s.progress = [] ∧ s.Framed

section
variable {sent : List Protocol} {bt : ByteArray Byte} {msg : Protocol} {f : FlatBuffer Byte}

theorem Carries.size (h : Carries sent bt msg f) : f.data.length = bt.size := by
  rw [← h.refines.content, h.refines.wf.length_content]

theorem Carries.content (h : Carries sent bt msg f) : bt.content = encoded msg := by
  rw [h.refines.content, h.data]

theorem Carries.mono {sent' : List Protocol} (h : Carries sent bt msg f)
    (hs : ∀ m ∈ sent, m ∈ sent') : Carries sent' bt msg f :=
  ⟨hs _ h.sent, h.data, h.refines, h.base, h.short⟩

end

theorem Phase.Ok.mono {sent sent' : List Protocol} {p : Phase} (h : p.Ok sent)
    (hs : ∀ m ∈ sent, m ∈ sent') : p.Ok sent' := by
  cases p with
  | idle => trivial
  | waiting bt =>
      obtain ⟨msg, f, hc, h0⟩ := h
      exact ⟨msg, f, hc.mono hs, h0⟩
  | writing bt length left =>
      obtain ⟨msg, f, hc, hrest⟩ := h
      exact ⟨msg, f, hc.mono hs, hrest⟩
  | crashed bt =>
      obtain ⟨msg, f, hc⟩ := h
      exact ⟨msg, f, hc.mono hs⟩

/-- What is written of a message begins the encoding of one that was sent. -/
theorem Phase.Ok.progress {sent : List Protocol} {p : Phase} (h : p.Ok sent) :
    p.progress = [] ∨ ∃ msg ∈ sent, p.progress <+: encoded msg := by
  cases p with
  | idle => exact .inl rfl
  | waiting bt => exact .inl rfl
  | writing bt length left =>
      obtain ⟨msg, f, hc, -⟩ := h
      exact .inr ⟨msg, hc.sent, by rw [← hc.content]; exact List.take_prefix _ _⟩
  | crashed bt =>
      obtain ⟨msg, f, hc⟩ := h
      exact .inr ⟨msg, hc.sent, by rw [← hc.content]; exact List.take_prefix _ _⟩

theorem flatten_encoded_concat (ms : List Protocol) (msg : Protocol) :
    ((ms ++ [msg]).map encoded).flatten = (ms.map encoded).flatten ++ encoded msg := by
  rw [List.map_append, List.flatten_append, List.map_singleton, List.flatten_singleton]

theorem Framing.framed {s : State} (h : Framing s) : s.Framed := by
  cases ht : s.torn with
  | true => exact (h.torn ht).2
  | false =>
      obtain ⟨ms, hms, hwire⟩ := h.untorn ht
      have hprogress : s.progress = [] ∨ ∃ msg ∈ s.sent, s.progress <+: encoded msg := by
        unfold State.progress
        split
        · exact .inl rfl
        · exact (h.senders _).progress
      rcases hprogress with h0 | ⟨msg, hmem, hpre⟩
      · exact ⟨ms, hms, by rw [hwire, h0, List.append_nil]⟩
      · refine ⟨ms ++ [msg], forall_mem_append_singleton hms hmem, ?_⟩
        rw [hwire, flatten_encoded_concat]
        exact (List.prefix_append_right_inj _).mpr hpre

theorem init_framing : Framing init :=
  ⟨fun _ => trivial, fun _ h => absurd h id, fun _ => ⟨[], fun _ h => h, rfl⟩, fun h => nomatch h⟩

/-! ## one step -/

section
variable {s : State} {c : Nat}

/-- The coroutines after a step of `c`. -/
theorem Framing.senders_of {t : State} (h : Framing s) {p : Phase}
    (hsenders : t.senders = (s.setSender c p).senders) (hsent : ∀ m ∈ s.sent, m ∈ t.sent)
    (hp : p.Ok t.sent) (c' : Nat) : (t.senders c').Ok t.sent := by
  rw [hsenders, senders_setSender]
  split
  · exact hp
  · exact (h.senders c').mono hsent

/-- Who holds the mutex after a step of `c` that leaves it alone. -/
theorem Framing.holder_of {t : State} (h : Framing s) {p : Phase}
    (hsenders : t.senders = (s.setSender c p).senders) (hmutex : t.mutex = s.mutex)
    (hp : p.Holds → s.mutex = some c) (c' : Nat) (hc' : (t.senders c').Holds) :
    t.mutex = some c' := by
  rw [hmutex]
  rcases holds_cases hsenders hc' with ⟨rfl, hp'⟩ | ⟨-, hc'⟩
  · exact hp hp'
  · exact h.holder c' hc'

theorem Framing.call (h : Framing s) {msg : Protocol} {f : FlatBuffer Byte}
    {bt : ByteArray Byte} (hp : s.senders c = .idle) (hf : msg.encode = .ok f)
    (hbt : bt.Refines f) (hbase : bt.baseSize = defaultBaseSize) : Framing (s.call c msg bt) := by
  have hsub : ∀ m ∈ s.sent, m ∈ (s.call c msg bt).sent := fun m hm => List.mem_cons_of_mem _ hm
  have hprogress : (s.call c msg bt).progress = s.progress :=
    progress_of_setSender (c := c) (p := .waiting bt) rfl rfl (by rw [hp]; rfl)
  have hposition := Protocol.position_encode hf
  constructor
  · refine h.senders_of (c := c) (p := .waiting bt) rfl hsub ⟨msg, f, ?_, hposition⟩
    exact ⟨List.mem_cons_self, by rw [encoded, hf], hbt, hbase, by omega⟩
  · exact h.holder_of (c := c) (p := .waiting bt) rfl rfl (fun hh => absurd hh id)
  · intro ht
    obtain ⟨ms, hms, hwire⟩ := h.untorn ht
    exact ⟨ms, fun m hm => hsub m (hms m hm), by rw [hprogress]; exact hwire⟩
  · intro ht
    obtain ⟨h0, ms, hms, hwire⟩ := h.torn ht
    exact ⟨by rw [hprogress, h0], ms, fun m hm => hsub m (hms m hm), hwire⟩

/-- The mutex is free, so nobody is inside a message. -/
theorem Framing.acquire (h : Framing s) {bt : ByteArray Byte} (hp : s.senders c = .waiting bt)
    (hm : s.mutex = none) : Framing (s.acquire c bt) := by
  have hok := h.senders c
  rw [hp] at hok
  obtain ⟨msg, f, hc, h0⟩ := hok
  have hold : s.progress = [] := by rw [State.progress, hm]
  have hnew : (s.acquire c bt).progress = [] := by
    rw [progress_of_mutex (c := c) rfl]
    show ((s.setSender c (.writing bt bt.size (toInt bt.size))).senders c).progress = []
    rw [senders_setSender, if_pos rfl, Phase.progress, hc.refines.position, h0, List.take_zero]
  constructor
  · refine h.senders_of (c := c) (p := .writing bt bt.size (toInt bt.size)) rfl
      (fun _ hm => hm) ⟨msg, f, hc, hc.size.symm, ?_⟩
    rw [h0]
    exact (Int.sub_zero _).symm
  · intro c' hc'
    rcases holds_cases (s := s) rfl hc' with ⟨rfl, -⟩ | ⟨-, hc'⟩
    · rfl
    · rw [h.holder c' hc'] at hm
      cases hm
  · intro ht
    obtain ⟨ms, hms, hwire⟩ := h.untorn ht
    rw [hold] at hwire
    exact ⟨ms, hms, by rw [hnew]; exact hwire⟩
  · intro ht
    exact ⟨hnew, (h.torn ht).2⟩

/-- A send that ends: its message is whole, or not begun, or now torn. -/
theorem Framing.finish (h : Framing s) {bt : ByteArray Byte} {length : Nat} {left : Int}
    (hp : s.senders c = .writing bt length left) : Framing (s.finish c bt) := by
  have hok := h.senders c
  rw [hp] at hok
  obtain ⟨msg, f, hc, -⟩ := hok
  have hmutex : s.mutex = some c := h.holder c (by rw [hp]; trivial)
  have hprogress : s.progress = bt.content.take bt.position := by
    rw [progress_of_mutex hmutex, hp, Phase.progress]
  constructor
  · exact h.senders_of (c := c) (p := .idle) rfl (fun _ hm => hm) trivial
  · intro c' hc'
    rcases holds_cases (s := s) rfl hc' with ⟨-, hidle⟩ | ⟨hne, hc'⟩
    · exact absurd hidle id
    · rw [h.holder c' hc'] at hmutex
      exact absurd (Option.some.inj hmutex) hne
  · intro ht
    have ht : (s.torn || partlyWritten bt) = false := ht
    rw [Bool.or_eq_false_iff] at ht
    obtain ⟨ht, hpart⟩ := ht
    simp only [partlyWritten, Bool.and_eq_false_iff, decide_eq_false_iff_not] at hpart
    obtain ⟨ms, hms, hwire⟩ := h.untorn ht
    rw [hprogress] at hwire
    show ∃ ms : List Protocol, (∀ m ∈ ms, m ∈ s.sent) ∧ s.wire = (ms.map encoded).flatten ++ []
    rcases hpart with h0 | hsize
    · have h0 : bt.position = 0 := by omega
      rw [h0, List.take_zero] at hwire
      exact ⟨ms, hms, hwire⟩
    · refine ⟨ms ++ [msg], forall_mem_append_singleton hms hc.sent, ?_⟩
      have hlen := hc.refines.wf.length_content
      rw [List.take_of_length_le (by omega), hc.content] at hwire
      rw [List.append_nil, flatten_encoded_concat, hwire]
  · intro _
    exact ⟨rfl, h.framed⟩

/-- A round that writes, on a wire that is not torn. -/
theorem Framing.wrote {t : State} (h : Framing s) {bt bt' : ByteArray Byte} {length k : Nat}
    {left : Int} {msg : Protocol} {f : FlatBuffer Byte} (hp : s.senders c = .writing bt length left)
    (hc : Carries s.sent bt msg f) (hlen : length = f.data.length)
    (hleft : left = toInt length - f.position) (hfit : f.data.length ≤ defaultBaseSize)
    (hle : f.position + k ≤ f.data.length)
    (href : bt'.Refines (f.setPosition (f.position + k) hle))
    (hbase : bt'.baseSize = bt.baseSize) (ht : s.torn = false)
    (hsenders : t.senders = (s.setSender c (.writing bt' length (left - k))).senders)
    (hmutex : t.mutex = s.mutex) (hsent : t.sent = s.sent) (htorn : t.torn = s.torn)
    (hwire : t.wire = s.wire ++ f.toString.take k) : Framing t := by
  have hmine : s.mutex = some c := h.holder c (by rw [hp]; trivial)
  have hc' : Carries t.sent bt' msg (f.setPosition (f.position + k) hle) :=
    ⟨hsent ▸ hc.sent, hc.data, href, hbase.trans hc.base, fun _ => hfit⟩
  constructor
  · refine h.senders_of hsenders (fun m hm => hsent ▸ hm) ⟨msg, _, hc', hlen, ?_⟩
    show left - k = toInt length - ((f.position + k : Nat) : Int)
    omega
  · exact h.holder_of hsenders hmutex (fun _ => hmine)
  · intro _
    obtain ⟨ms, hms, hold⟩ := h.untorn ht
    have hprogress : s.progress = f.data.take f.position := by
      rw [progress_of_mutex hmine, hp, Phase.progress, hc.refines.content, hc.refines.position]
    have hprogress' : t.progress = f.data.take (f.position + k) := by
      rw [progress_of_mutex (hmutex.trans hmine), hsenders, senders_setSender, if_pos rfl,
        Phase.progress, href.content, href.position]
      rfl
    refine ⟨ms, by rwa [hsent], ?_⟩
    rw [hwire, hold, hprogress, hprogress', List.append_assoc, List.take_add]
    rfl
  · intro ht'
    rw [htorn, ht] at ht'
    cases ht'

theorem Framing.fault (h : Framing s) {bt : ByteArray Byte} {length : Nat} {left : Int}
    (hp : s.senders c = .writing bt length left) : Framing (s.setSender c (.crashed bt)) := by
  have hok := h.senders c
  rw [hp] at hok
  obtain ⟨msg, f, hc, -⟩ := hok
  have hprogress : (s.setSender c (.crashed bt)).progress = s.progress :=
    progress_of_setSender (c := c) (p := .crashed bt) rfl rfl (by rw [hp]; rfl)
  constructor
  · exact h.senders_of (c := c) (p := .crashed bt) rfl (fun _ hm => hm) ⟨msg, f, hc⟩
  · exact h.holder_of (c := c) (p := .crashed bt) rfl rfl
      (fun _ => h.holder c (by rw [hp]; trivial))
  · intro ht
    rw [hprogress]
    exact h.untorn ht
  · intro ht
    rw [hprogress]
    exact h.torn ht

/-- **One step** that meets the condition keeps the wire framed. -/
theorem Framing.step {t : State} {a : Action} (h : Framing s) (hsilent : SilentAfterTorn s a)
    (hs : Step s a t) : Framing t := by
  cases hs with
  | call hp hf hbt hbase => exact h.call hp hf hbt hbase
  | acquire hp hm => exact h.acquire hp hm
  | fault hp _ _ => exact h.fault hp
  | finish hp _ => exact h.finish hp
  | @write c length left rt bt bt' bytes reply hp hleft hw =>
      have hok := h.senders c
      rw [hp] at hok
      obtain ⟨msg, f, hc, hlen, hleft'⟩ := hok
      have hint := toInt_natCast_le length
      have hbase := hc.base
      rcases socketWrite_cases hc.refines (by omega) (by rw [hbase]; exact hc.short)
          (by rw [hbase]; decide) (by omega) hw with
        ⟨hrt, rfl, rfl⟩ | ⟨n, k, hle, rfl, hn, hfit, hk, rfl, rfl, href, hb⟩
      · -- the loop returns what `write` returned
        have hstate : s.wrote c length left rt bt' [] = s.finish c bt' := by
          rw [State.wrote, List.append_nil, if_pos hrt]
        rw [hstate]
        exact h.finish hp
      · have ht : s.torn = false := by
          cases ht : s.torn with
          | false => rfl
          | true =>
              have hshort : ¬ (s.senders c).TooLong := by
                rw [hp, Phase.TooLong, ← hc.size]
                omega
              rcases hsilent ht with hn' | hlong
              · omega
              · exact absurd hlong hshort
        have hstate : s.wrote c length left k bt' (f.toString.take k) =
            { s with wire := s.wire ++ f.toString.take k }.setSender c
              (.writing bt' length (left - k)) := if_neg (by omega)
        rw [hstate]
        exact h.wrote hp hc hlen hleft' (by omega) hle href hb ht rfl rfl rfl rfl rfl

end

/-- **Framing**: in every state of every run in which nothing is written behind
a message given up half-way, the wire begins a concatenation of whole
messages. -/
theorem framed_of_run {s : State} {as : List Action}
    (h : Lts.Run (Lts.Restrict Step SilentAfterTorn) init as s) : s.Framed := by
  have hinv : Framing s := h.invariant init_framing fun _ _ _ ht hs => ht.step hs.1 hs.2
  exact hinv.framed

/-! ## sends that write in one round -/

/-- Only a message that `encode` returns has bytes. -/
theorem encode_of_encoded_pos {msg : Protocol} (h : 0 < (encoded msg).length) :
    ∃ f, msg.encode = .ok f ∧ f.data = encoded msg := by
  unfold encoded at h ⊢
  cases hf : msg.encode with
  | error e => simp [hf] at h
  | ok f => exact ⟨f, rfl, rfl⟩

/-- A send with the session to itself, up to the round of its first write, which
takes `k` bytes; and the session if the send ends there. -/
theorem exists_write {C : State → Action → Prop} {s : State} {c : Nat} (msg : Protocol) (k : Nat)
    (hm : s.mutex = none) (hp : s.senders c = .idle)
    (hfit : (encoded msg).length ≤ defaultBaseSize) (hk : 0 < k)
    (hle : k ≤ (encoded msg).length) (hC : ∀ t a, t.torn = s.torn → C t a) :
    ∃ as t bt size, Lts.Run (Lts.Restrict Step C) s as t ∧ t.torn = s.torn ∧
      t.senders c = .writing bt size ((encoded msg).length - k : Nat) ∧
      t.finish c bt = { s with
        sent := msg :: s.sent
        wire := s.wire ++ (encoded msg).take k
        torn := s.torn || decide (k < (encoded msg).length) } := by
  obtain ⟨f, hf, hdata⟩ := encode_of_encoded_pos (Nat.lt_of_lt_of_le hk hle)
  rw [← hdata] at hfit hle ⊢
  have h0 := Protocol.position_encode hf
  obtain ⟨bt, hbt, hbase⟩ : ∃ bt : ByteArray Byte, bt.Refines f ∧ bt.baseSize = defaultBaseSize :=
    ByteArray.exists_refines (by decide) h0
  have hsize : f.data.length = bt.size := by rw [← hbt.content, hbt.wf.length_content]
  have hint : toInt bt.size = bt.size :=
    toInt_of_lt (by omega) (by rw [← hsize]; unfold defaultBaseSize at hfit; omega)
  have hwant : 0 < (k : Int) := by omega
  obtain ⟨k', bt', hw, hk', hle', hbt', hbase'⟩ := socketWrite_sendmsg hbt (by omega) (by omega)
    (by rw [hbase]; decide) (Nat.le_of_eq hsize) hwant
  obtain rfl : k' = k := by omega
  have hall : f.toString = f.data := by rw [FlatBuffer.toString, h0, List.drop_zero]
  have hmine : ∀ (t : State) (p : Phase), (t.setSender c p).senders c = p := fun t p =>
    (senders_setSender t c p c).trans (if_pos rfl)
  have hcall : Step s (.call c msg) (s.call c msg bt) := .call hp hf hbt hbase
  have hacquire : Step (s.call c msg bt) (.acquire c) ((s.call c msg bt).acquire c bt) :=
    .acquire (hmine _ _) hm
  let t : State := { (s.call c msg bt).acquire c bt with
    wire := s.wire ++ f.data.take k' }.setSender c (.writing bt' bt.size (toInt bt.size - k'))
  have hwrite : Step ((s.call c msg bt).acquire c bt) (.write c (.sendmsg k')) t := by
    have hheld : ((s.call c msg bt).acquire c bt).senders c =
        .writing bt bt.size (toInt bt.size) := hmine (s.call c msg bt) _
    have hstep := Step.write hheld (by omega) hw
    rw [hall, State.wrote, if_neg (by omega)] at hstep
    exact hstep
  have hrun := Lts.Run.snoc (.snoc (.single (R := Lts.Restrict Step C) ⟨hC s _ rfl, hcall⟩)
    ⟨hC (s.call c msg bt) _ rfl, hacquire⟩)
    ⟨hC ((s.call c msg bt).acquire c bt) _ rfl, hwrite⟩
  have hpart : partlyWritten bt' = decide (k' < f.data.length) := by
    have hpos : bt'.position = k' := by
      rw [hbt'.position]
      show f.position + k' = k'
      omega
    have hsize' : bt'.size = f.data.length := by
      rw [← hbt'.wf.length_content, hbt'.content]
      rfl
    rw [partlyWritten, hpos, hsize', decide_eq_true hk, Bool.true_and]
  refine ⟨_, t, bt', bt.size, hrun, rfl, ?_, ?_⟩
  · rw [show ((f.data.length - k' : Nat) : Int) = toInt bt.size - k' by omega]
    exact hmine _ _
  · simp only [t, State.finish, State.setSender, State.acquire, State.call, update_idem, hpart, hm]
    rw [← hp, update_eq_self]

/-- A send with the session to itself, of which one write takes `k` bytes and,
if that is not all, the next one fails. -/
theorem exists_send {C : State → Action → Prop} {s : State} {c : Nat} (msg : Protocol) (k : Nat)
    (hm : s.mutex = none) (hp : s.senders c = .idle)
    (hfit : (encoded msg).length ≤ defaultBaseSize) (hk : 0 < k)
    (hle : k ≤ (encoded msg).length) (hC : ∀ t a, t.torn = s.torn → C t a) :
    ∃ as t, Lts.Run (Lts.Restrict Step C) s as t ∧ t = { s with
      sent := msg :: s.sent
      wire := s.wire ++ (encoded msg).take k
      torn := s.torn || decide (k < (encoded msg).length) } := by
  obtain ⟨as, t, bt, size, hrun, htorn, hphase, hend⟩ := exists_write msg k hm hp hfit hk hle hC
  by_cases hwhole : k = (encoded msg).length
  · exact ⟨_, _, hrun.snoc ⟨hC t _ htorn, .finish hphase (by omega)⟩, hend⟩
  · have hlost : socketWrite .notConnected bt size = .ok (-1, bt, []) := rfl
    have hfail := Step.write hphase (by omega) hlost
    rw [State.wrote, if_pos (by decide), List.append_nil] at hfail
    exact ⟨_, _, hrun.snoc ⟨hC t _ htorn, hfail⟩, hend⟩

end

/-- A request whose send is given up after one byte, and a heartbeat sent after
it: the peer sees two magic bytes in a row. -/
theorem not_framed_after_failure :
    letI := x86_64
    ∃ s, Reachable s ∧ s.wire = (0xfc : Byte) :: encoded .heartbeat ∧ ¬ s.Framed := by
  let m := x86_64
  obtain ⟨as, s₁, has, hs₁⟩ := exists_send (C := fun _ _ => True) (s := init) (c := 0)
    (.createSuccess .kRpcMethodRequest [1, 2, 3] 0) 1 rfl rfl (by decide) (by decide) (by decide)
    (fun _ _ _ => trivial)
  obtain ⟨bs, s₂, hbs, hs₂⟩ := exists_send (C := fun _ _ => True) (s := s₁) (c := 1) .heartbeat 20
    (by rw [hs₁]; rfl) (by rw [hs₁]; rfl) (by decide) (by decide) (by decide) (fun _ _ _ => trivial)
  have hwire : s₂.wire = (0xfc : Byte) :: encoded .heartbeat := by
    rw [hs₂, hs₁]
    rfl
  refine ⟨s₂, ⟨_, (has.append hbs).mono fun _ _ _ h => h.2⟩, hwire, ?_⟩
  rintro ⟨ms, hms, rest, hrest⟩
  rw [hwire] at hrest
  cases ms with
  | nil => cases hrest
  | cons msg ms =>
      have hmsg := hms msg List.mem_cons_self
      simp only [hs₂, hs₁, init, List.mem_cons, List.not_mem_nil, or_false] at hmsg
      -- the second byte of either message is the version
      rcases hmsg with rfl | rfl <;>
      · injection hrest with _ hrest
        injection hrest with hbyte _
        cases hbyte

/-- A heartbeat in whole, then two bytes of a request. -/
theorem framed_of_run_torn :
    letI := x86_64
    ∃ as s, Lts.Run (Lts.Restrict Step SilentAfterTorn) init as s ∧ s.torn = true ∧
      s.wire = encoded .heartbeat ++ [0xfc, 0x10] ∧ s.Framed := by
  let m := x86_64
  obtain ⟨as, s₁, has, hs₁⟩ := exists_send (s := init) (c := 0) .heartbeat 20 rfl rfl (by decide)
    (by decide) (by decide) (fun _ a ht => silentAfterTorn_of_untorn ht a)
  have htorn : s₁.torn = false := by
    rw [hs₁]
    rfl
  obtain ⟨bs, s₂, hbs, hs₂⟩ := exists_send (s := s₁) (c := 1)
    (.createSuccess .kRpcMethodRequest [1, 2, 3] 0) 2 (by rw [hs₁]; rfl) (by rw [hs₁]; rfl)
    (by decide) (by decide) (by decide)
    (fun _ a ht => silentAfterTorn_of_untorn (ht.trans htorn) a)
  refine ⟨_, s₂, has.append hbs, ?_, ?_, framed_of_run (has.append hbs)⟩
  · rw [hs₂, htorn]
    rfl
  · rw [hs₂, hs₁]
    rfl

end Send
end XzmjxRpc
