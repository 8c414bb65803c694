import XzmjxRpc.Rpc.Serializer.Bound

/-!
# XzmjxRpc.Rpc.Serializer.Cut

What `>>` builds from any message, also from one that it throws on.

A container grows by an element a round, and each of them took a byte.  A
string is resized to the length in front of it before its characters are
read, so a message that breaks off after a length makes one of that length:
five bytes, four gigabytes (`not_buildsBounded_string`).  `Ty.CutsString` says
which messages do that; from all others nothing is built that they have no
bytes for (`buildsBounded_iff`).
-/

namespace XzmjxRpc

/-! ## messages that cut a string short -/

/-- What is left in some round of a container's loop, where `elem` reads an
element, meets `P`. -/
def InElements {α : Type} (elem : Decoder α) (P : Bytes → Prop) (s : Bytes) : Prop :=
  ∃ n left, readUint64 s = .ok (n, left) ∧
    ∃ k < n.toNat, ∃ rest, Reader.Skips elem k left rest ∧ P rest

/-- What is left before the first part, or after it before the second, meets
the condition of that part. -/
def InParts {α : Type} (first : Decoder α) (P Q : Bytes → Prop) (s : Bytes) : Prop :=
  P s ∨ ∃ a rest, first s = .ok (a, rest) ∧ Q rest

section
variable [Machine]

/-- A key and a value of a map. -/
def readEntry (k v : Ty) : Decoder (k.Val × v.Val) := do
  let key ← deserialize k k.init
  let value ← deserialize v v.init
  pure (key, value)

mutual

/-- Reading a value of the type comes to a string whose length is larger than
the number of bytes after it, but not too large for the machine. -/
def Ty.CutsString : (t : Ty) → t.Val → Bytes → Prop
  | .string, _, s => ∃ len left, readUint64 s = .ok (len, left) ∧ left.length < len.toNat ∧
      resize len.toNat = .ok ()
  | .vector t, _, s => InElements (deserialize t t.init) (t.CutsString t.init) s
  | .list t, _, s => InElements (deserialize t t.init) (t.CutsString t.init) s
  | .set t, _, s => InElements (deserialize t t.init) (t.CutsString t.init) s
  | .unorderedSet t, _, s => InElements (deserialize t t.init) (t.CutsString t.init) s
  | .map k v, _, s => InElements (readEntry k v)
      (InParts (deserialize k k.init) (k.CutsString k.init) (v.CutsString v.init)) s
  | .unorderedMap k v, _, s => InElements (readEntry k v)
      (InParts (deserialize k k.init) (k.CutsString k.init) (v.CutsString v.init)) s
  | .tuple ts, tp, s => Ty.CutsStringIn ts tp s
  | _, _, _ => False

/-- Reading a tuple of the types does. -/
def Ty.CutsStringIn : (ts : List Ty) → (Ty.interps ts).Val → Bytes → Prop
  | [], _, _ => False
  | t :: ts, (v, vs), s =>
      InParts (deserialize t v) (t.CutsString v) (Ty.CutsStringIn ts vs) s

end

/-! ## where they show -/

end

/-- A string of more characters than there were bytes after its length. -/
def Built.Exceeds : Built → Prop
  | string length left => left < length
  | _ => False

/-- A decoder logs a string that exceeds its message where `C` holds. -/
abbrev Oversizes {α : Type} (C : Bytes → Prop) (v : Constructor α) : Prop :=
  Metered.Marks Built.Exceeds C v

section
variable {α β γ : Type}

theorem oversizes_scalar (m : Decoder α) :
    Oversizes (fun _ => False) (Metered.lift m fun _ _ => [Built.scalar]) :=
  (Metered.Marks.lift m _).congr fun s => by simp [Built.Exceeds]

/-- A part of a value, and the rest of it. -/
theorem oversizes_bind {m' : Constructor α} {m : Decoder α} {f : α → Constructor β}
    {P Q : Bytes → Prop} (hm : Oversizes P m') (hfollows : Metered.Follows m' m)
    (hf : ∀ a, Oversizes Q (f a)) : Oversizes (InParts m P Q) (m' >>= f) :=
  hm.bind hfollows hf

/-- A container, by a round of its loop. -/
theorem oversizes_constructCounted {round : β → Constructor β} {elem : Decoder α}
    (put : β → α → β) {C : Bytes → Prop} (h : ∀ b, Oversizes C (round b))
    (hfollows : ∀ b, Metered.Follows (round b) (put b <$> elem)) (data : β) :
    Oversizes (InElements elem C) (constructCounted round data) := by
  have hcount : Oversizes (fun _ => False)
      (Metered.lift readUint64 fun (n : BitVec 64) rest =>
        [Built.container n.toNat rest.length]) :=
    (Metered.Marks.lift _ _).congr fun s => by simp [Built.Exceeds]
  refine (hcount.bind (.lift _ _) fun n => .iterate h hfollows n.toNat data).congr fun s => ?_
  rw [InElements, false_or]

/-- A round that reads an element and puts it into the container. -/
theorem oversizes_elements {v : Constructor α} {elem : Decoder α} {C : Bytes → Prop}
    (hv : Oversizes C v) (hfollows : Metered.Follows v elem) (put : γ → α → γ) (data : γ) :
    Oversizes (InElements elem C) (constructCounted (fun data => put data <$> v) data) :=
  oversizes_constructCounted put (fun data => hv.map (put data) hfollows)
    (fun data => hfollows.map (put data)) data

end

section
variable [Machine]

/-- A string is there as long as the resize has made it. -/
theorem oversizes_constructString :
    Oversizes (Ty.CutsString .string ([] : Bytes)) constructString := by
  refine ((Metered.Marks.lift _ _).bind (.lift _ _) fun len => .lift _ _).congr fun s => ?_
  show _ ↔ ∃ len left, readUint64 s = .ok (len, left) ∧ left.length < len.toNat ∧
    resize len.toNat = .ok ()
  constructor
  · rintro (⟨len, left, hlen, x, hx, hexceeds⟩ | ⟨_, _, -, _, _, -, x, hx, -⟩)
    · refine ⟨len, left, hlen, ?_⟩
      unfold resized resizeFor at hx
      split at hx
      · cases hx
      · next hresize =>
        cases List.mem_singleton.mp hx
        have hlt : left.length < len.toNat := hexceeds
        rw [if_pos hlt] at hresize
        exact ⟨hlt, hresize⟩
    · cases hx
  · rintro ⟨len, left, hlen, hlt, hresize⟩
    refine .inl ⟨len, left, hlen, .string len.toNat left.length, ?_, hlt⟩
    rw [resized, resizeFor, if_pos hlt, hresize]
    exact List.mem_singleton_self _

/-- An entry of a map is read as a pair of its key and value. -/
theorem follows_entry (k v : Ty) (data : Finmap fun _ : k.Val => v.Val) :
    Metered.Follows
      (do let key ← construct k k.init
          let value ← construct v v.init
          pure (data.insert key value) : Constructor (Finmap fun _ : k.Val => v.Val))
      ((fun e => data.insert e.1 e.2) <$> readEntry k v) := by
  have hmap : ((fun e => data.insert e.1 e.2) <$> readEntry k v) =
      (do let key ← deserialize k k.init
          let value ← deserialize v v.init
          pure (data.insert key value)) := by
    simp only [readEntry, map_bind, map_pure]
  rw [hmap]
  exact (follows_construct k k.init).bind fun key =>
    (follows_construct v v.init).bind fun value => .pure _

theorem oversizes_constructMap {k v : Ty} {P Q : Bytes → Prop}
    (hk : Oversizes P (construct k k.init)) (hv : Oversizes Q (construct v v.init))
    (data : Finmap fun _ : k.Val => v.Val) :
    Oversizes (InElements (readEntry k v) (InParts (deserialize k k.init) P Q))
      (constructMap (construct k k.init) (construct v v.init) data) := by
  refine oversizes_constructCounted (fun data e => data.insert e.1 e.2) (fun data => ?_)
    (follows_entry k v) data
  refine oversizes_bind hk (follows_construct k k.init) fun key => ?_
  refine (oversizes_bind hv (follows_construct v v.init) fun value => .pure _).congr fun s => ?_
  simp [InParts]

mutual

/-- A string that exceeds its message is built exactly from the messages that
cut one short. -/
theorem oversizes_construct :
    (t : Ty) → (old : t.Val) → Oversizes (t.CutsString old) (construct t old)
  | .bool, _ => oversizes_scalar _
  | .float, _ => oversizes_scalar _
  | .double, _ => oversizes_scalar _
  | .uint8, _ => oversizes_scalar _
  | .int8, _ => oversizes_scalar _
  | .uint16, _ => oversizes_scalar _
  | .int16, _ => oversizes_scalar _
  | .uint32, _ => oversizes_scalar _
  | .int32, _ => oversizes_scalar _
  | .uint64, _ => oversizes_scalar _
  | .int64, _ => oversizes_scalar _
  | .string, _ => oversizes_constructString
  | .vector t, data =>
      oversizes_elements (oversizes_construct t t.init) (follows_construct t t.init) _ data
  | .list t, data =>
      oversizes_elements (oversizes_construct t t.init) (follows_construct t t.init) _ data
  | .set t, data =>
      oversizes_elements (oversizes_construct t t.init) (follows_construct t t.init) _ data
  | .unorderedSet t, data =>
      oversizes_elements (oversizes_construct t t.init) (follows_construct t t.init) _ data
  | .map k v, data =>
      oversizes_constructMap (oversizes_construct k k.init) (oversizes_construct v v.init) data
  | .unorderedMap k v, data =>
      oversizes_constructMap (oversizes_construct k k.init) (oversizes_construct v v.init) data
  | .tuple ts, tp => oversizes_constructTuple ts tp

theorem oversizes_constructTuple : (ts : List Ty) → (tp : (Ty.interps ts).Val) →
    Oversizes (Ty.CutsStringIn ts tp) (constructTuple ts tp)
  | [], _ => .pure _
  | t :: ts, (v, vs) => by
      have hrest (x : t.Val) : Oversizes (Ty.CutsStringIn ts vs)
          (do let xs ← constructTuple ts vs; pure (x, xs) :
            Constructor (Ty.interps (t :: ts)).Val) :=
        (oversizes_bind (oversizes_constructTuple ts vs) (follows_constructTuple ts vs)
          fun xs => .pure _).congr fun s => by simp [InParts]
      exact oversizes_bind (oversizes_construct t v) (follows_construct t v) hrest

end

/-! ## failures -/

/-- A run that fails has built no more than the message has bytes, unless it
has built a string that exceeds it. -/
abbrev Capped {α : Type} (v : Constructor α) : Prop :=
  Metered.Caps Built.items (fun x => ¬ x.Exceeds) v

end

section
variable {α γ : Type} {v : Constructor α}

theorem capped_constructCounted {round : γ → Constructor γ} (h : ∀ b, Capped (round b))
    (hpaid : ∀ b, Metered.Meters Built.items Built.Fits (round b)) (data : γ) :
    Capped (constructCounted round data) := by
  have hcount : Metered.Meters Built.items (fun _ => True)
      (Metered.lift readUint64 fun (n : BitVec 64) rest =>
        [Built.container n.toNat rest.length]) :=
    .lift takes_readUint64 (fun _ _ => Nat.le_refl 1) fun _ _ _ _ => trivial
  exact (Metered.Caps.lift _ _).bind hcount fun n => .iterate h hpaid n.toNat data

theorem capped_elements (h : Capped v) (hpaid : Metered.Meters Built.items Built.Fits v)
    (put : γ → α → γ) (data : γ) :
    Capped (constructCounted (fun data => put data <$> v) data) :=
  capped_constructCounted (fun data => h.map (put data) hpaid) (fun data => hpaid.map (put data))
    data

theorem capped_constructMap {β : Type} [DecidableEq α] {v' : Constructor β} (h : Capped v)
    (hpaid : Metered.Meters Built.items Built.Fits v) (h' : Capped v')
    (hpaid' : Metered.Meters Built.items Built.Fits v') (data : Finmap fun _ : α => β) :
    Capped (constructMap v v' data) :=
  capped_constructCounted
    (fun _ => h.bind hpaid fun _ => h'.bind hpaid' fun _ => .pure _)
    (fun _ => hpaid.bind fun _ => hpaid'.bind fun _ => .pure _) data

end

section
variable [Machine]

/-- When its characters cannot be read, a string exceeds the message or was
refused. -/
theorem capped_constructString : Capped constructString := by
  intro s l e l' h
  rw [constructString, Metered.bind_apply, Metered.lift] at h
  cases hlen : readUint64 s with
  | error e' =>
      rw [hlen] at h
      cases h
      exact ⟨[], (List.append_nil l).symm, fun _ => Nat.zero_le _⟩
  | ok p =>
      obtain ⟨len, left⟩ := p
      rw [hlen] at h
      change Metered.lift (readChars len.toNat) _ (left, l ++ resized len.toNat left) = _ at h
      rw [Metered.lift, readChars_eq, Reader.take] at h
      by_cases hlt : left.length < len.toNat
      · rw [if_pos hlt] at h
        cases h
        refine ⟨_, rfl, fun hall => ?_⟩
        rw [resized, resizeFor, if_pos hlt] at hall ⊢
        cases hresize : resize len.toNat with
        | error e => exact Nat.zero_le _
        | ok _ =>
            rw [hresize] at hall
            exact absurd hlt (hall _ (List.mem_singleton_self _))
      · rw [if_neg hlt] at h
        cases h

mutual

theorem capped_construct :
    (t : Ty) → t.NoEmptyTuple → (old : t.Val) → Capped (construct t old)
  | .bool, _, _ => .lift _ _
  | .float, _, _ => .lift _ _
  | .double, _, _ => .lift _ _
  | .uint8, _, _ => .lift _ _
  | .int8, _, _ => .lift _ _
  | .uint16, _, _ => .lift _ _
  | .int16, _, _ => .lift _ _
  | .uint32, _, _ => .lift _ _
  | .int32, _, _ => .lift _ _
  | .uint64, _, _ => .lift _ _
  | .int64, _, _ => .lift _ _
  | .string, _, _ => capped_constructString
  | .vector t, h, data =>
      capped_elements (capped_construct t h t.init) (meters_construct t h t.init) _ data
  | .list t, h, data =>
      capped_elements (capped_construct t h t.init) (meters_construct t h t.init) _ data
  | .set t, h, data =>
      capped_elements (capped_construct t h t.init) (meters_construct t h t.init) _ data
  | .unorderedSet t, h, data =>
      capped_elements (capped_construct t h t.init) (meters_construct t h t.init) _ data
  | .map k v, h, data =>
      capped_constructMap (capped_construct k h.1 k.init) (meters_construct k h.1 k.init)
        (capped_construct v h.2 v.init) (meters_construct v h.2 v.init) data
  | .unorderedMap k v, h, data =>
      capped_constructMap (capped_construct k h.1 k.init) (meters_construct k h.1 k.init)
        (capped_construct v h.2 v.init) (meters_construct v h.2 v.init) data
  | .tuple ts, h, tp => capped_constructTuple ts h.2 tp

theorem capped_constructTuple : (ts : List Ty) → Ty.NoEmptyTuples ts →
    (tp : (Ty.interps ts).Val) → Capped (constructTuple ts tp)
  | [], _, _ => .pure _
  | t :: ts, h, (v, vs) =>
      (capped_construct t h.1 v).bind (meters_construct t h.1 v) fun _ =>
        (capped_constructTuple ts h.2 vs).bind (meters_constructTuple ts h.2 vs) fun _ => .pure _

end

/-! ## what a message can build -/

/-- What `>>` builds from `s` is bounded by `s`. -/
structure BuildsBounded (t : Ty) (old : t.Val) (s : Bytes) : Prop where
  /-- A success has taken a byte for everything it built. -/
  paid : ∀ v rest, deserialize t old s = .ok (v, rest) →
    ((constructed t old s).map Built.items).sum + rest.length ≤ s.length
  /-- A count above the number of bytes after it makes it throw. -/
  counts : ∀ count left, .container count left ∈ constructed t old s → left < count →
    ∃ e, e.Thrown ∧ deserialize t old s = .error e
  /-- No string is built that the bytes after its length do not fill. -/
  strings : ∀ length left, .string length left ∈ constructed t old s → length ≤ left
  /-- Whether it succeeds or throws, it has built no more than there are bytes. -/
  total : ((constructed t old s).map Built.items).sum ≤ s.length

/-- A string in the log that exceeds the message. -/
theorem exists_exceeds_iff (t : Ty) (old : t.Val) (s : Bytes) :
    (∃ x ∈ constructed t old s, x.Exceeds) ↔ t.CutsString old s := by
  obtain ⟨new, hnew, hiff⟩ := oversizes_construct t old s []
  rw [constructed, Metered.logOf, hnew, List.nil_append]
  exact hiff

/-- **What a message can build**: for a type without an empty tuple it is
bounded by the message exactly when the message cuts no string short. -/
theorem buildsBounded_iff {t : Ty} (ht : t.NoEmptyTuple) (old : t.Val) (s : Bytes) :
    BuildsBounded t old s ↔ ¬ t.CutsString old s := by
  rw [← exists_exceeds_iff]
  constructor
  · rintro hbounded ⟨x, hx, hexceeds⟩
    cases x with
    | scalar => exact hexceeds
    | string length left => exact Nat.not_le_of_lt hexceeds (hbounded.strings length left hx)
    | container count left => exact hexceeds
  · intro hno
    have hnone : ∀ x ∈ constructed t old s, ¬ x.Exceeds := fun x hx h => hno ⟨x, hx, h⟩
    refine ⟨fun v rest h => (constructed_of_ok ht h).1, ?_, ?_, ?_⟩
    · intro count left hmem hlt
      cases h : deserialize t old s with
      | error e => exact ⟨e, (scans_deserialize t old).fails s e h, rfl⟩
      | ok p =>
          have hle : count ≤ left := (constructed_of_ok ht h).2 _ hmem
          omega
    · intro length left hmem
      exact Nat.le_of_not_lt (hnone _ hmem)
    · cases h : deserialize t old s with
      | error e =>
          obtain ⟨log, hrun⟩ := (follows_construct t old).error s [] e h
          obtain ⟨new, hnew, hle⟩ := capped_construct t ht old s [] e log hrun
          have hlog : constructed t old s = new := by
            rw [constructed, Metered.logOf, Metered.logAfter_error hrun]
            exact hnew
          rw [hlog] at hnone ⊢
          exact hle hnone
      | ok p =>
          have hpaid := (constructed_of_ok ht h).1
          omega

end

/-- A set of strings whose count is two and that ends after one of them. -/
theorem buildsBounded_iff_strings :
    letI := x86_64
    BuildsBounded (.set .string) (Ty.init _) [2, 1, 97] := by
  let m := x86_64
  refine (@buildsBounded_iff m (.set .string) trivial (Ty.init _) [2, 1, 97]).mpr ?_
  rw [← exists_exceeds_iff]
  have hlog : constructed (.set .string) (Ty.init _) [2, 1, 97] =
      [.container 2 2, .string 1 1] := by decide
  rw [hlog]
  simp [Built.Exceeds]

/-- Five bytes from which a string of `2 ^ 32 - 1` characters is built. -/
theorem not_buildsBounded_string :
    letI := x86_64
    (∃ s : Bytes, s.length = 5 ∧
      .string (2 ^ 32 - 1) 0 ∈ constructed .string ([] : Bytes) s ∧
      ¬ BuildsBounded .string ([] : Bytes) s) ∧
    ¬ ∀ t : Ty, t.NoEmptyTuple → ∀ (old : t.Val) (s : Bytes), BuildsBounded t old s := by
  let m := x86_64
  have hlog : Built.string (2 ^ 32 - 1) 0 ∈
      constructed .string ([] : Bytes) [0xff, 0xff, 0xff, 0xff, 0x0f] := by decide
  have hnot : ¬ BuildsBounded .string ([] : Bytes) [0xff, 0xff, 0xff, 0xff, 0x0f] :=
    fun h => absurd (h.strings _ _ hlog) (by decide)
  exact ⟨⟨_, rfl, hlog, hnot⟩, fun h => hnot (h .string trivial [] _)⟩

end XzmjxRpc
