import XzmjxRpc.Utils.ByteArray.Lagging

/-!
# XzmjxRpc.Utils.ByteArray.Content

What writes put below the size when `m_cur` may lag: `Fits` is the exact
condition under which several writes in a row leave only their own cells and
old content there (`writeAll_content`, `writeAll_lost`).
-/

namespace XzmjxRpc
namespace ByteArray

open Blocks

variable {α : Type u}

/-! ## one write -/

theorem mem_content {b : ByteArray α} {c : α} :
    c ∈ b.content ↔ ∃ k < b.size, b.cells[k]? = some c := by
  rw [content, List.mem_iff_getElem?]
  simp only [List.getElem?_take]
  constructor
  · rintro ⟨k, hk⟩
    split at hk
    · next hlt => exact ⟨k, hlt, hk⟩
    · cases hk
  · rintro ⟨k, hlt, hk⟩
    exact ⟨k, by rw [if_pos hlt, hk]⟩

/-- The cells after a write, one by one. -/
theorem write_getElem? [Inhabited α] {b b' : ByteArray α} {lag : Nat} (h : b.Lags lag) {d : List α}
    (hd : d ≠ []) (hw : b.write d = .ok b') (k : Nat) :
    b'.cells[k]? =
      if b.position - b.writeLag lag * b.baseSize ≤ k ∧
          k < b.position - b.writeLag lag * b.baseSize + d.length then
        d[k - (b.position - b.writeLag lag * b.baseSize)]?
      else (b.addCapacity d.length).cells[k]? := by
  obtain ⟨-, -, -, -, -, hcells⟩ := write_inv h hd hw
  obtain ⟨hadd, hpos, -, -, -, hfit, -⟩ := addCapacity_lags h (List.length_pos_of_ne_nil hd)
  rw [hcells, getElem?_splice]
  have := hadd.length_cells
  omega

/-- A write that stores where the position is, or that stays below the size,
puts nothing but its own cells below the size. -/
theorem write_content [Inhabited α] {P : α → Prop} {b b' : ByteArray α} {lag : Nat}
    (h : b.Lags lag) {d : List α} (hd : d ≠ []) (hw : b.write d = .ok b')
    (hall : ∀ c ∈ b.content, P c) (hnew : ∀ c ∈ d, P c)
    (hc : b.writeLag lag = 0 ∨ b.position + d.length ≤ b.size) : ∀ c ∈ b'.content, P c := by
  obtain ⟨-, -, -, hsize, -⟩ := write_inv h hd hw
  obtain ⟨-, -, -, -, -, -, hcells⟩ := addCapacity_lags h (List.length_pos_of_ne_nil hd)
  intro c hmem
  obtain ⟨k, hk, hck⟩ := mem_content.mp hmem
  rw [write_getElem? h hd hw] at hck
  split at hck
  · exact hnew c (List.mem_of_getElem? hck)
  · next hout =>
      -- outside the stored range only cells that were below the size are left
      have hle := h.position_le
      have hlt : k < b.size := by
        rcases hc with h0 | hfit
        · rw [h0, Nat.zero_mul] at hout
          omega
        · omega
      have hlen := h.length_cells
      have hsz := h.size_le
      rw [hcells, List.getElem?_append_left (by omega)] at hck
      exact hall c (mem_content.mpr ⟨k, hlt, hck⟩)

/-! ## several writes -/

/-- `write` called for each of `ds` in turn. -/
def writeAll [Inhabited α] (b : ByteArray α) (ds : List (List α)) : Except Fault (ByteArray α) :=
  ds.foldlM write b

theorem writeAll_cons [Inhabited α] {b b' : ByteArray α} {d : List α} (ds : List (List α))
    (hw : b.write d = .ok b') : b.writeAll (d :: ds) = b'.writeAll ds := by
  rw [writeAll, List.foldlM_cons, hw]
  rfl

theorem writeAll_nil_cons [Inhabited α] (b : ByteArray α) (ds : List (List α)) :
    b.writeAll ([] :: ds) = b.writeAll ds := writeAll_cons ds b.write_nil

/-- `m_cur` is at the node of the position, or the writes stay below the size,
or they fill the last node to its end before they go on. -/
def Fits (b : ByteArray α) (ds : List (List β)) : Prop :=
  b.cur = b.nodeAt (b.position / b.baseSize) ∨ b.position + ds.flatten.length ≤ b.size ∨
    (b.size = b.capacity ∧
      ∃ ds₁ ds₂, ds = ds₁ ++ ds₂ ∧ b.position + ds₁.flatten.length = b.capacity)

theorem fits_nil_cons {b : ByteArray α} {ds : List (List β)} :
    b.Fits ([] :: ds) ↔ b.Fits ds := by
  simp only [Fits, List.flatten_cons, List.nil_append]
  refine or_congr_right (or_congr_right (and_congr_right fun _ => ?_))
  constructor
  · rintro ⟨_ | ⟨d, ds₁⟩, ds₂, hds, hlen⟩
    · exact ⟨[], ds, rfl, hlen⟩
    · obtain ⟨rfl, rfl⟩ := List.cons.inj hds
      exact ⟨ds₁, ds₂, rfl, hlen⟩
  · rintro ⟨ds₁, ds₂, rfl, hlen⟩
    exact ⟨[] :: ds₁, ds₂, rfl, hlen⟩

/-- Only the lengths of the writes matter. -/
theorem fits_map {b : ByteArray α} {ds : List (List β)} (g : β → γ) :
    b.Fits (ds.map (List.map g)) ↔ b.Fits ds := by
  have hlen (ds : List (List β)) : (ds.map (List.map g)).flatten.length = ds.flatten.length := by
    rw [← List.map_flatten, List.length_map]
  simp only [Fits, hlen]
  refine or_congr_right (or_congr_right (and_congr_right fun _ => ?_))
  constructor
  · rintro ⟨es₁, es₂, hds, hfill⟩
    obtain ⟨ds₁, ds₂, rfl, rfl, rfl⟩ := List.map_eq_append_iff.mp hds
    exact ⟨ds₁, ds₂, rfl, by rw [← hlen, hfill]⟩
  · rintro ⟨ds₁, ds₂, rfl, hfill⟩
    exact ⟨_, _, List.map_append, by rw [hlen, hfill]⟩

/-- What `Fits` says of the first write, and what is left of it after. -/
theorem Fits.cons [Inhabited α] {b b' : ByteArray α} {lag : Nat} {d : List α} {ds : List (List α)}
    (h : b.Lags lag) (hd : d ≠ []) (hw : b.write d = .ok b') (hf : b.Fits (d :: ds)) :
    (b.writeLag lag = 0 ∨ b.position + d.length ≤ b.size) ∧ b'.Fits ds := by
  obtain ⟨hlag, hpos, -, hsize, hcap, -⟩ := write_inv h hd hw
  have hdl := List.length_pos_of_ne_nil hd
  rcases hf with hcur | hfit | ⟨hfull, ds₁, ds₂, hds, hlen⟩
  · have h0 : b.writeLag lag = 0 := by
      rw [h.cur_eq_iff.mp hcur]
      exact ite_self 0
    exact ⟨.inl h0, .inl (hlag.cur_eq_iff.mpr h0)⟩
  · rw [List.flatten_cons, List.length_append] at hfit
    exact ⟨.inr (by omega), .inr (.inl (by omega))⟩
  · cases ds₁ with
    | nil =>
        have h0 : b.writeLag lag = 0 := if_pos hlen
        exact ⟨.inl h0, .inl (hlag.cur_eq_iff.mpr h0)⟩
    | cons e ds₁ =>
        obtain ⟨rfl, rfl⟩ := List.cons.inj hds
        rw [List.flatten_cons, List.length_append] at hlen
        rw [addCapacity_of_le h (by omega)] at hcap
        exact ⟨.inr (by omega), .inr (.inr ⟨by omega, ds₁, ds₂, rfl, by omega⟩)⟩

/-- Writes that fit put nothing but their own cells below the size. -/
theorem writeAll_content [Inhabited α] {P : α → Prop} {b : ByteArray α} {lag : Nat}
    {ds : List (List α)} (h : b.Lags lag) (hall : ∀ c ∈ b.content, P c)
    (hnew : ∀ d ∈ ds, ∀ c ∈ d, P c) (hf : b.Fits ds) :
    ∃ b' lag', b.writeAll ds = .ok b' ∧ b'.Lags lag' ∧ ∀ c ∈ b'.content, P c := by
  induction ds generalizing b lag with
  | nil => exact ⟨b, lag, rfl, h, hall⟩
  | cons d ds ih =>
      have hnew' : ∀ d ∈ ds, ∀ c ∈ d, P c := fun e he => hnew e (List.mem_cons_of_mem _ he)
      by_cases hd : d = []
      · subst hd
        rw [writeAll_nil_cons]
        exact ih h hall hnew' (fits_nil_cons.mp hf)
      · obtain ⟨b', hw, hlag, -⟩ := write_lags h hd
        obtain ⟨hfst, hrest⟩ := hf.cons h hd hw
        rw [writeAll_cons ds hw]
        exact ih hlag (write_content h hd hw hall (hnew d List.mem_cons_self) hfst) hnew' hrest

/-! ## writes that do not fit -/

/-- A cell outside the stored range is an old cell or an untouched new one. -/
theorem write_frame [Inhabited α] {b b' : ByteArray α} {lag : Nat} (h : b.Lags lag) {d : List α}
    (hd : d ≠ []) (hw : b.write d = .ok b') {k : Nat} {c : α} (hc : b'.cells[k]? = some c)
    (hk : k < b.position - b.writeLag lag * b.baseSize ∨
      b.position - b.writeLag lag * b.baseSize + d.length ≤ k) :
    b.cells[k]? = some c ∨ (b.capacity ≤ k ∧ c = default) := by
  obtain ⟨-, -, -, -, -, -, hcells⟩ := addCapacity_lags h (List.length_pos_of_ne_nil hd)
  have hlen := h.length_cells
  rw [write_getElem? h hd hw, if_neg (by omega), hcells, List.getElem?_append] at hc
  split at hc
  · exact .inl hc
  · next hge =>
      exact .inr ⟨by omega, (List.eq_of_mem_replicate (List.mem_of_getElem? hc))⟩

/-- Above the size a write stores nothing. -/
theorem write_beyond [Inhabited α] {P : α → Prop} (hdef : ¬ P default) {b b' : ByteArray α}
    {lag : Nat} (h : b.Lags lag) {d : List α} (hw : b.write d = .ok b')
    (hbeyond : ∀ k c, b.size ≤ k → b.cells[k]? = some c → ¬ P c) :
    ∀ k c, b'.size ≤ k → b'.cells[k]? = some c → ¬ P c := by
  by_cases hd : d = []
  · subst hd
    cases b.write_nil.symm.trans hw
    exact hbeyond
  obtain ⟨-, -, -, hsize, -⟩ := write_inv h hd hw
  intro k c hk hc
  rcases write_frame h hd hw hc (.inr (by omega)) with hold | ⟨-, rfl⟩
  · exact hbeyond k c (by omega) hold
  · exact hdef

/-- What holds of the old cells, the written ones and untouched ones holds of
all cells after a write. -/
theorem write_cells [Inhabited α] {Q : α → Prop} (hdef : Q default) {b b' : ByteArray α} {lag : Nat}
    (h : b.Lags lag) {d : List α} (hw : b.write d = .ok b') (hold : ∀ c ∈ b.cells, Q c)
    (hnew : ∀ c ∈ d, Q c) : ∀ c ∈ b'.cells, Q c := by
  by_cases hd : d = []
  · subst hd
    cases b.write_nil.symm.trans hw
    exact hold
  intro c hc
  obtain ⟨k, hk⟩ := List.mem_iff_getElem?.mp hc
  by_cases hin : b.position - b.writeLag lag * b.baseSize ≤ k ∧
      k < b.position - b.writeLag lag * b.baseSize + d.length
  · rw [write_getElem? h hd hw, if_pos hin] at hk
    exact hnew c (List.mem_of_getElem? hk)
  · rcases write_frame h hd hw hk (by omega) with h' | ⟨-, rfl⟩
    · exact hold c (List.mem_of_getElem? h')
    · exact hdef

/-- Any property that every write of `ds` keeps, all of them keep. -/
theorem writeAll_keeps [Inhabited α] {I : ByteArray α → Prop} {b b' : ByteArray α} {lag : Nat}
    {ds : List (List α)} (h : b.Lags lag)
    (hstep : ∀ d ∈ ds, ∀ b b' : ByteArray α, ∀ lag, b.Lags lag → I b → b.write d = .ok b' → I b')
    (hi : I b) (hw : b.writeAll ds = .ok b') : I b' := by
  induction ds generalizing b lag with
  | nil =>
      cases hw
      exact hi
  | cons d ds ih =>
      have hstep' := hstep d List.mem_cons_self
      have hrest := fun e he => hstep e (List.mem_cons_of_mem d he)
      by_cases hd : d = []
      · subst hd
        rw [writeAll_nil_cons] at hw
        exact ih h hrest hi hw
      · obtain ⟨b₁, hw₁, hlag₁, -⟩ := write_lags h hd
        rw [writeAll_cons ds hw₁] at hw
        exact ih hlag₁ hrest (hstep' b b₁ lag h hi hw₁) hw

/-- What an ill-fitting write leaves behind: a bad cell before the position, or
a lagging `m_cur` and bad cells from right before the position on. -/
def Lost (P : α → Prop) (b : ByteArray α) (lag : Nat) : Prop :=
  (lag = 0 ∧ ∃ k c, k < b.position ∧ b.cells[k]? = some c ∧ ¬ P c) ∨
    (0 < lag ∧ ∀ k c, b.position ≤ k + 1 → b.cells[k]? = some c → ¬ P c)

/-- The first cell of the position's node is not before the buffer. -/
theorem Lags.base_le_mul {b : ByteArray α} {lag : Nat} (h : b.Lags lag) (hlag : 0 < lag) :
    1 ≤ lag * b.baseSize ∧ lag * b.baseSize ≤ b.position :=
  ⟨Nat.mul_pos hlag h.base_pos, h.mul_le⟩

/-- Either way there is a bad cell below the size. -/
theorem Lost.exists_mem {P : α → Prop} {b : ByteArray α} {lag : Nat} (h : b.Lags lag)
    (hl : Lost P b lag) : ∃ c ∈ b.content, ¬ P c := by
  have hle := h.position_le
  have hsize := h.size_le
  have hlen := h.length_cells
  rcases hl with ⟨-, k, c, hk, hc, hP⟩ | ⟨hlag, hall⟩
  · exact ⟨c, mem_content.mpr ⟨k, by omega, hc⟩, hP⟩
  · obtain ⟨h1, h2⟩ := h.base_le_mul hlag
    have hget := List.getElem?_eq_getElem (l := b.cells) (i := b.position - 1) (by omega)
    exact ⟨_, mem_content.mpr ⟨_, by omega, hget⟩, hall _ _ (by omega) hget⟩

/-- No later write makes up for it. -/
theorem Lost.write [Inhabited α] {P : α → Prop} (hdef : ¬ P default) {b b' : ByteArray α}
    {lag : Nat} (h : b.Lags lag) {d : List α} (hd : d ≠ []) (hw : b.write d = .ok b')
    (hl : Lost P b lag) : Lost P b' (b.writeLag lag) := by
  obtain ⟨-, hpos, -⟩ := write_inv h hd hw
  obtain ⟨hadd, -, -, -, -, -, hcells⟩ := addCapacity_lags h (List.length_pos_of_ne_nil hd)
  have hlen := h.length_cells
  have hle := h.position_le.trans h.size_le
  -- a bad cell before the position of an `m_cur` that is right stays
  have hkeep {k : Nat} {c : α} (h0 : b.writeLag lag = 0) (hk : k < b.position)
      (hc : b.cells[k]? = some c) : b'.cells[k]? = some c := by
    rw [write_getElem? h hd hw, h0, Nat.zero_mul, if_neg (by omega), hcells,
      List.getElem?_append_left (by omega), hc]
  rcases hl with ⟨rfl, k, c, hk, hc, hP⟩ | ⟨hlag, hall⟩
  · have h0 : b.writeLag 0 = 0 := ite_self 0
    exact .inl ⟨h0, k, c, by omega, hkeep h0 hk hc, hP⟩
  · obtain ⟨h1, h2⟩ := h.base_le_mul hlag
    by_cases hp : b.position = b.capacity
    · have h0 : b.writeLag lag = 0 := if_pos hp
      have hget := List.getElem?_eq_getElem (l := b.cells) (i := b.position - 1) (by omega)
      exact .inl ⟨h0, _, _, by omega, hkeep h0 (by omega) hget, hall _ _ (by omega) hget⟩
    · have hl : b.writeLag lag = lag := if_neg hp
      rw [hl]
      refine .inr ⟨hlag, fun k c hk hc => ?_⟩
      rcases write_frame h hd hw hc (by rw [hl]; omega) with hold | ⟨-, rfl⟩
      · exact hall k c (by omega) hold
      · exact hdef

/-- The first write that does not fit loses a cell. -/
theorem lost_of_not_fits [Inhabited α] {P : α → Prop} (hdef : ¬ P default) {b b' : ByteArray α}
    {lag : Nat} (h : b.Lags lag) (hbeyond : ∀ k c, b.size ≤ k → b.cells[k]? = some c → ¬ P c)
    {d : List α} (hd : d ≠ []) (hw : b.write d = .ok b') (hlag : 0 < lag)
    (hroom : b.position ≠ b.capacity) (hout : b.size < b.position + d.length) : Lost P b' lag := by
  obtain ⟨-, hpos, -⟩ := write_inv h hd hw
  obtain ⟨h1, h2⟩ := h.base_le_mul hlag
  have hl : b.writeLag lag = lag := if_neg hroom
  refine .inr ⟨hlag, fun k c hk hc => ?_⟩
  rcases write_frame h hd hw hc (by rw [hl]; omega) with hold | ⟨-, rfl⟩
  · exact hbeyond k c (by omega) hold
  · exact hdef

theorem writeAll_of_lost [Inhabited α] {P : α → Prop} (hdef : ¬ P default) {b b' : ByteArray α}
    {lag : Nat} {ds : List (List α)} (h : b.Lags lag) (hw : b.writeAll ds = .ok b')
    (hl : Lost P b lag) : ∃ c ∈ b'.content, ¬ P c := by
  induction ds generalizing b lag with
  | nil =>
      cases hw
      exact hl.exists_mem h
  | cons d ds ih =>
      by_cases hd : d = []
      · subst hd
        rw [writeAll_nil_cons] at hw
        exact ih h hw hl
      · obtain ⟨b₁, hw₁, hlag₁, -⟩ := write_lags h hd
        rw [writeAll_cons ds hw₁] at hw
        exact ih hlag₁ hw (hl.write hdef h hd hw₁)

/-- **Exactness of `Fits`**: writes that do not fit leave a bad cell below the
size, if there was none but bad ones above it. -/
theorem writeAll_lost [Inhabited α] {P : α → Prop} (hdef : ¬ P default) {b b' : ByteArray α}
    {lag : Nat} {ds : List (List α)} (h : b.Lags lag)
    (hbeyond : ∀ k c, b.size ≤ k → b.cells[k]? = some c → ¬ P c) (hw : b.writeAll ds = .ok b')
    (hf : ¬ b.Fits ds) : ∃ c ∈ b'.content, ¬ P c := by
  induction ds generalizing b with
  | nil => exact absurd (.inr (.inl h.position_le)) hf
  | cons d ds ih =>
      by_cases hd : d = []
      · subst hd
        rw [writeAll_nil_cons] at hw
        exact ih h hbeyond hw (fun hfit => hf (fits_nil_cons.mpr hfit))
      have hsz := h.size_le
      have hle := h.position_le
      have hlag : 0 < lag := Nat.pos_of_ne_zero fun h0 => hf (.inl (h.cur_eq_iff.mpr h0))
      have hroom : b.position ≠ b.capacity := fun hp =>
        hf (.inr (.inr ⟨by omega, [], d :: ds, rfl, hp⟩))
      have hl : b.writeLag lag = lag := if_neg hroom
      obtain ⟨b₁, hw₁, hlag₁, hpos₁, -, hsize₁, hcap₁, -⟩ := write_lags h hd
      rw [writeAll_cons ds hw₁] at hw
      rw [hl] at hlag₁
      by_cases hout : b.size < b.position + d.length
      · exact writeAll_of_lost hdef hlag₁ hw
          (lost_of_not_fits hdef h hbeyond hd hw₁ hlag hroom hout)
      · rw [addCapacity_of_le h (by omega)] at hcap₁
        obtain ⟨h1, h2⟩ := h.base_le_mul hlag
        refine ih hlag₁ (fun k c hk hc => ?_) hw ?_
        · rcases write_frame h hd hw₁ hc (by rw [hl]; omega) with hold | ⟨-, rfl⟩
          · exact hbeyond k c (by omega) hold
          · exact hdef
        · rintro (hcur | hfit | ⟨hfull, ds₁, ds₂, rfl, hlen⟩)
          · exact hlag.ne' (hlag₁.cur_eq_iff.mp hcur)
          · exact hf (.inr (.inl (by rw [List.flatten_cons, List.length_append]; omega)))
          · exact hf (.inr (.inr ⟨by omega, d :: ds₁, ds₂, rfl, by
              rw [List.flatten_cons, List.length_append]; omega⟩))

end ByteArray
end XzmjxRpc
