import XzmjxRpc.Lib.Metered
import XzmjxRpc.Rpc.Serializer

/-!
# XzmjxRpc.Rpc.Serializer.Bound

How much `>>` can build from a message.

The count in front of a container is any 64-bit number the peer likes, and
drives a loop that builds an element a round.  `construct` is `deserialize`
with a log of what it builds: every scalar, every string with its characters,
as the resize makes it, every container with its count, and with the last two
the number of bytes after the count.  A type without an empty tuple in it takes
a byte for each value it reads, so a loop that comes to its end has had a byte
for each round.

What the log says about the value is in `XzmjxRpc.Rpc.Serializer.Items`, what
it says about runs that fail in `XzmjxRpc.Rpc.Serializer.Cut`.
-/

namespace XzmjxRpc

/-! ## types whose values take bytes -/

mutual

/-- There is no `std::tuple<>` in the type. -/
def Ty.NoEmptyTuple : Ty → Prop
  | .vector t | .list t | .set t | .unorderedSet t => t.NoEmptyTuple
  | .map k v | .unorderedMap k v => k.NoEmptyTuple ∧ v.NoEmptyTuple
  | .tuple ts => ts ≠ [] ∧ Ty.NoEmptyTuples ts
  | _ => True

/-- There is no `std::tuple<>` in any of the types. -/
def Ty.NoEmptyTuples : List Ty → Prop
  | [] => True
  | t :: ts => t.NoEmptyTuple ∧ Ty.NoEmptyTuples ts

end

/-- A container takes the bytes of its count, whatever its elements are. -/
theorem takes_container {β : Type} (round : β → Decoder β)
    (h : ∀ b, Reader.Scans Fault.Thrown (round b)) (data : β) :
    Reader.Takes (do let n ← readUint64; Reader.iterate round n.toNat data) fun _ => 1 :=
  takes_readUint64.bind fun n => (Reader.Scans.iterate h n.toNat data).takes

section
variable [Machine]

/-- Without an empty tuple in the type, `>>` takes a byte at least. -/
theorem takes_deserialize :
    (t : Ty) → t.NoEmptyTuple → (old : t.Val) → Reader.Takes (deserialize t old) fun _ => 1
  | .bool, _, _ => (Reader.Takes.next _).map _
  | .float, _, _ => (takes_readFixed 4 .big).mono fun _ => by decide
  | .double, _, _ => (takes_readFixed 8 .big).mono fun _ => by decide
  | .uint8, _, _ => Reader.Takes.next _
  | .int8, _, _ => Reader.Takes.next _
  | .uint16, _, _ => (takes_readFixed 2 .big).mono fun _ => by decide
  | .int16, _, _ => (takes_readFixed 2 .big).mono fun _ => by decide
  | .uint32, _, _ => takes_readUint32
  | .int32, _, _ => takes_readUint32.map _
  | .uint64, _, _ => takes_readUint64
  | .int64, _, _ => takes_readUint64.map _
  | .string, _, _ => takes_readStringVint.mono fun s => Nat.le_add_right 1 s.length
  | .vector t, _, data => takes_container _ (fun _ => (scans_deserialize t t.init).map _) data
  | .list t, _, data => takes_container _ (fun _ => (scans_deserialize t t.init).map _) data
  | .set t, _, data => takes_container _ (fun _ => (scans_deserialize t t.init).map _) data
  | .unorderedSet t, _, data => takes_container _ (fun _ => (scans_deserialize t t.init).map _) data
  | .map k v, _, data =>
      takes_container _ (fun _ => (scans_deserialize k k.init).bind fun _ =>
        (scans_deserialize v v.init).bind fun _ => Reader.Scans.pure _ _) data
  | .unorderedMap k v, _, data =>
      takes_container _ (fun _ => (scans_deserialize k k.init).bind fun _ =>
        (scans_deserialize v v.init).bind fun _ => Reader.Scans.pure _ _) data
  | .tuple [], h, _ => absurd rfl h.1
  | .tuple (t :: ts), h, (v, vs) =>
      (takes_deserialize t h.2.1 v).bind fun _ =>
        ((scans_deserializeTuple ts vs).bind fun _ => Reader.Scans.pure _ _).takes

end

/-! ## what is built -/

/-- A step of building a value. -/
inductive Built where
  /-- A scalar. -/
  | scalar
  /-- A string of so many characters, whose length was read with `left` bytes
  after it. -/
  | string (length left : Nat)
  /-- A container whose count was read with `left` bytes after it; its
  elements follow. -/
  | container (count left : Nat)
deriving DecidableEq

namespace Built

/-- The number of scalars, strings, characters and containers in a step. -/
def items : Built → Nat
  | scalar => 1
  | string length _ => 1 + length
  | container _ _ => 1

/-- The number in front is no larger than the number of bytes after it. -/
def Fits : Built → Prop
  | scalar => True
  | string length left => length ≤ left
  | container count left => count ≤ left

end Built

/-- A decoder with a log of what it builds. -/
abbrev Constructor (α : Type) := Metered Byte Fault Built α

section
variable [Machine]

/-- What `s.resize(n)` builds in front of `rest`. -/
def resized (n : Nat) (rest : Bytes) : List Built :=
  match resizeFor n rest.length with
  | .error _ => []
  | .ok () => [.string n rest.length]

/-- `readStringVint()`: the string is there before its characters are read. -/
def constructString : Constructor Bytes := do
  let len ← Metered.lift readUint64 fun len rest => resized len.toNat rest
  Metered.lift (readChars len.toNat) fun _ _ => []

end

/-- `std::size_t n; (*this) >> n`, and so many rounds. -/
def constructCounted {β : Type} (round : β → Constructor β) (data : β) : Constructor β := do
  let n ← Metered.lift readUint64 fun n rest => [.container n.toNat rest.length]
  Metered.iterate round n.toNat data

/-- `>>` into a vector or list. -/
def constructSeq {α : Type} (v : Constructor α) (data : List α) : Constructor (List α) :=
  constructCounted (fun data => (data ++ [·]) <$> v) data

/-- `>>` into a set. -/
def constructSet {α : Type} [DecidableEq α] (v : Constructor α) (data : Finset α) :
    Constructor (Finset α) :=
  constructCounted (fun data => (insert · data) <$> v) data

/-- `>>` into a map. -/
def constructMap {α β : Type} [DecidableEq α] (first : Constructor α) (second : Constructor β)
    (data : Finmap fun _ : α => β) : Constructor (Finmap fun _ : α => β) :=
  constructCounted (fun data => do
    let k ← first
    let v ← second
    pure (data.insert k v)) data

section
variable {β : Type} {round' : β → Constructor β} {round : β → Decoder β}

theorem follows_constructCounted (h : ∀ b, Metered.Follows (round' b) (round b)) (data : β) :
    Metered.Follows (constructCounted round' data)
      (do let n ← readUint64; Reader.iterate round n.toNat data) :=
  (Metered.Follows.lift readUint64 _).bind fun n => Metered.Follows.iterate h n.toNat data

/-- A loop whose rounds take a byte each has had a byte for each round when it
comes to its end. -/
theorem meters_constructCounted (h : ∀ b, Metered.Follows (round' b) (round b))
    (htakes : ∀ b, Reader.Takes (round b) fun _ => 1)
    (hround : ∀ b, Metered.Meters Built.items Built.Fits (round' b)) (data : β) :
    Metered.Meters Built.items Built.Fits (constructCounted round' data) := by
  have hfits : ∀ (n : BitVec 64) s l b rest l',
      Metered.iterate round' n.toNat data (s, l) = .ok (b, rest, l') → n.toNat ≤ s.length := by
    intro n s l b rest l' hrun
    have hplain := (Metered.Follows.iterate h n.toNat data).of_ok hrun
    have hle := Reader.Takes.iterate htakes n.toNat data s b rest hplain
    exact Nat.le_trans (Nat.le_add_right _ _) hle
  let event (n : BitVec 64) (left : Nat) : Built := .container n.toNat left
  have hw : ∀ n left, (event n left).items ≤ 1 := fun _ _ => Nat.le_refl 1
  exact Metered.Meters.counted takes_readUint64 hw
    (fun n => Metered.Meters.iterate hround n.toNat data) hfits

end

section
variable {α β γ : Type} {v : Constructor α} {d : Decoder α} {v' : Constructor β} {d' : Decoder β}

/-- Rounds that read an element and put it into the container. -/
theorem meters_elements (hv : Metered.Follows v d) (htakes : Reader.Takes d fun _ => 1)
    (hmeters : Metered.Meters Built.items Built.Fits v) (put : γ → α → γ) (data : γ) :
    Metered.Meters Built.items Built.Fits
      (constructCounted (fun data => put data <$> v) data) :=
  meters_constructCounted (fun data => hv.map (put data)) (fun data => htakes.map (put data))
    (fun data => hmeters.map (put data)) data

/-- Rounds that read a key and a value. -/
theorem meters_entries [DecidableEq α] (hv : Metered.Follows v d) (hv' : Metered.Follows v' d')
    (htakes : Reader.Takes d fun _ => 1) (hscans : Reader.Scans Fault.Thrown d')
    (hmeters : Metered.Meters Built.items Built.Fits v)
    (hmeters' : Metered.Meters Built.items Built.Fits v') (data : Finmap fun _ : α => β) :
    Metered.Meters Built.items Built.Fits (constructMap v v' data) := by
  let rest (data : Finmap fun _ : α => β) (k : α) : Decoder (Finmap fun _ : α => β) := do
    let v ← d'
    pure (data.insert k v)
  have hrest : ∀ data k, Reader.Takes (rest data k) fun _ => 0 := fun data k =>
    (hscans.bind fun v => Reader.Scans.pure _ (data.insert k v)).takes
  have htakes' : ∀ data, Reader.Takes (d >>= rest data) fun _ => 1 := fun data =>
    htakes.bind (hrest data)
  exact meters_constructCounted
    (fun data => hv.bind fun k => hv'.bind fun v => .pure (data.insert k v)) htakes'
    (fun data => hmeters.bind fun k => hmeters'.bind fun v => .pure (data.insert k v)) data

end

section
variable [Machine]

mutual

/-- `*this >> data`, with a log of what it builds. -/
def construct : (t : Ty) → t.Val → Constructor t.Val
  | .vector t, data => constructSeq (construct t t.init) data
  | .list t, data => constructSeq (construct t t.init) data
  | .set t, data => constructSet (construct t t.init) data
  | .unorderedSet t, data => constructSet (construct t t.init) data
  | .map k v, data => constructMap (construct k k.init) (construct v v.init) data
  | .unorderedMap k v, data => constructMap (construct k k.init) (construct v v.init) data
  | .tuple ts, tp => constructTuple ts tp
  | .string, _ => constructString
  | t, v => Metered.lift (deserialize t v) fun _ _ => [.scalar]

/-- `((*this) >> ... >> std::get<Index>(t))`, with a log of what it builds. -/
def constructTuple : (ts : List Ty) → (Ty.interps ts).Val → Constructor (Ty.interps ts).Val
  | [], _ => pure ()
  | t :: ts, (v, vs) => do
      let v ← construct t v
      let vs ← constructTuple ts vs
      pure (v, vs)

end

theorem follows_constructString : Metered.Follows constructString readStringVint :=
  (Metered.Follows.lift readUint64 _).bind fun len => .lift (readChars len.toNat) _

mutual

/-- `construct` is `>>` with a log. -/
theorem follows_construct :
    (t : Ty) → (old : t.Val) → Metered.Follows (construct t old) (deserialize t old)
  | .bool, v => .lift (deserialize .bool v) _
  | .float, v => .lift (deserialize .float v) _
  | .double, v => .lift (deserialize .double v) _
  | .uint8, v => .lift (deserialize .uint8 v) _
  | .int8, v => .lift (deserialize .int8 v) _
  | .uint16, v => .lift (deserialize .uint16 v) _
  | .int16, v => .lift (deserialize .int16 v) _
  | .uint32, v => .lift (deserialize .uint32 v) _
  | .int32, v => .lift (deserialize .int32 v) _
  | .uint64, v => .lift (deserialize .uint64 v) _
  | .int64, v => .lift (deserialize .int64 v) _
  | .string, _ => follows_constructString
  | .vector t, data => follows_constructCounted (fun _ => (follows_construct t t.init).map _) data
  | .list t, data => follows_constructCounted (fun _ => (follows_construct t t.init).map _) data
  | .set t, data => follows_constructCounted (fun _ => (follows_construct t t.init).map _) data
  | .unorderedSet t, data =>
      follows_constructCounted (fun _ => (follows_construct t t.init).map _) data
  | .map k v, data =>
      follows_constructCounted (fun _ => (follows_construct k k.init).bind fun _ =>
        (follows_construct v v.init).bind fun _ => .pure _) data
  | .unorderedMap k v, data =>
      follows_constructCounted (fun _ => (follows_construct k k.init).bind fun _ =>
        (follows_construct v v.init).bind fun _ => .pure _) data
  | .tuple ts, tp => follows_constructTuple ts tp

theorem follows_constructTuple : (ts : List Ty) → (tp : (Ty.interps ts).Val) →
    Metered.Follows (constructTuple ts tp) (deserializeTuple ts tp)
  | [], _ => .pure _
  | t :: ts, (v, vs) => (follows_construct t v).bind fun _ =>
      (follows_constructTuple ts vs).bind fun _ => .pure _

end

/-- A scalar takes a byte and logs one step. -/
theorem meters_scalar {t : Ty} (ht : t.NoEmptyTuple) (v : t.Val) :
    Metered.Meters Built.items Built.Fits
      (Metered.lift (deserialize t v) fun _ _ => [Built.scalar]) := by
  apply Metered.Meters.lift (takes_deserialize t ht v)
  · intro a rest
    exact Nat.le_refl 1
  · intro a rest x hx
    cases List.mem_singleton.mp hx
    trivial

/-- A string that is read is one that was built. -/
theorem constructString_of_ok {s rest : Bytes} {l l' : List Built} {str : Bytes}
    (h : constructString (s, l) = .ok (str, rest, l')) :
    l' = l ++ [.string str.length (str ++ rest).length] ∧
      1 + (str ++ rest).length ≤ s.length := by
  obtain ⟨len, left, hlen, hchars⟩ := Reader.bind_eq_ok.mp (follows_constructString.of_ok h)
  rw [readChars_eq] at hchars
  obtain ⟨rfl, hstr⟩ := Reader.take_eq_ok.mp hchars
  refine ⟨?_, takes_readUint64 s len _ hlen⟩
  have hfits : len.toNat ≤ (str ++ rest).length := by
    rw [List.length_append]
    omega
  rw [constructString, Metered.bind_apply, Metered.lift, hlen] at h
  change Metered.lift (readChars len.toNat) _ (_, l ++ resized len.toNat _) = _ at h
  rw [Metered.lift, readChars_eq, hchars, resized, resizeFor, if_neg (by omega), ← hstr] at h
  cases h
  exact List.append_nil _

/-- A string takes a byte of its length and one for each character. -/
theorem meters_string : Metered.Meters Built.items Built.Fits constructString := by
  intro s l str rest l' h
  obtain ⟨hlog, htakes⟩ := constructString_of_ok h
  rw [List.length_append] at hlog htakes
  refine ⟨_, hlog, ?_, fun x hx => ?_⟩
  · rw [List.map_singleton, List.sum_singleton, Built.items]
    omega
  · cases List.mem_singleton.mp hx
    exact Nat.le_add_right _ _

mutual

/-- Without an empty tuple in the type, a success of `>>` has taken a byte for
each item it built, and every count it met was no larger than the number of
bytes after it. -/
theorem meters_construct : (t : Ty) → t.NoEmptyTuple → (old : t.Val) →
    Metered.Meters Built.items Built.Fits (construct t old)
  | .bool, _, v => meters_scalar (t := .bool) trivial v
  | .float, _, v => meters_scalar (t := .float) trivial v
  | .double, _, v => meters_scalar (t := .double) trivial v
  | .uint8, _, v => meters_scalar (t := .uint8) trivial v
  | .int8, _, v => meters_scalar (t := .int8) trivial v
  | .uint16, _, v => meters_scalar (t := .uint16) trivial v
  | .int16, _, v => meters_scalar (t := .int16) trivial v
  | .uint32, _, v => meters_scalar (t := .uint32) trivial v
  | .int32, _, v => meters_scalar (t := .int32) trivial v
  | .uint64, _, v => meters_scalar (t := .uint64) trivial v
  | .int64, _, v => meters_scalar (t := .int64) trivial v
  | .string, _, _ => meters_string
  | .vector t, h, data => meters_elements (follows_construct t t.init)
      (takes_deserialize t h t.init) (meters_construct t h t.init) _ data
  | .list t, h, data => meters_elements (follows_construct t t.init)
      (takes_deserialize t h t.init) (meters_construct t h t.init) _ data
  | .set t, h, data => meters_elements (follows_construct t t.init)
      (takes_deserialize t h t.init) (meters_construct t h t.init) _ data
  | .unorderedSet t, h, data => meters_elements (follows_construct t t.init)
      (takes_deserialize t h t.init) (meters_construct t h t.init) _ data
  | .map k v, h, data =>
      meters_entries (follows_construct k k.init) (follows_construct v v.init)
        (takes_deserialize k h.1 k.init) (scans_deserialize v v.init)
        (meters_construct k h.1 k.init) (meters_construct v h.2 v.init) data
  | .unorderedMap k v, h, data =>
      meters_entries (follows_construct k k.init) (follows_construct v v.init)
        (takes_deserialize k h.1 k.init) (scans_deserialize v v.init)
        (meters_construct k h.1 k.init) (meters_construct v h.2 v.init) data
  | .tuple ts, h, tp => meters_constructTuple ts h.2 tp

theorem meters_constructTuple : (ts : List Ty) → Ty.NoEmptyTuples ts →
    (tp : (Ty.interps ts).Val) → Metered.Meters Built.items Built.Fits (constructTuple ts tp)
  | [], _, _ => .pure _
  | t :: ts, h, (v, vs) => (meters_construct t h.1 v).bind fun _ =>
      (meters_constructTuple ts h.2 vs).bind fun _ => .pure _

end

/-- What `>>` builds from `s`, up to where it stops. -/
def constructed (t : Ty) (old : t.Val) (s : Bytes) : List Built :=
  Metered.logOf (construct t old) s

/-- The log of a run that succeeds. -/
theorem constructed_of_ok {t : Ty} (ht : t.NoEmptyTuple) {old v : t.Val} {s rest : Bytes}
    (h : deserialize t old s = .ok (v, rest)) :
    ((constructed t old s).map Built.items).sum + rest.length ≤ s.length ∧
      ∀ x ∈ constructed t old s, x.Fits := by
  obtain ⟨log, hrun⟩ := (follows_construct t old).ok s [] v rest h
  obtain ⟨new, hnew, hle, hfits⟩ := meters_construct t ht old s [] v rest log hrun
  have hlog : constructed t old s = new := by
    rw [constructed, Metered.logOf, Metered.logAfter_ok hrun]
    exact hnew
  rw [hlog]
  exact ⟨hle, hfits⟩

end

end XzmjxRpc
