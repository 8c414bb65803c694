import XzmjxRpc.Lib.Numeral

/-!
# XzmjxRpc.Lib.IPv6Text

The text of IPv6 addresses: eight groups of one to four hexadecimal digits
with `":"` between them, where one `"::"` may stand for the run of zero groups
that completes the eight; and of an address with a port, `[address]:port`.

`read` and `readEndpoint` follow these rules.  `Spells t gs` says that `t` is
one of the texts of `gs` with all digits as `Numeral.print` has them; every
such text is read as `gs` (`Spells.read_eq`).
-/

namespace IPv6Text

abbrev Group := BitVec 16

/-- `":"`. -/
def colon : BitVec 8 := 58
/-- `"["`. -/
def openBracket : BitVec 8 := 91
/-- `"]"`. -/
def closeBracket : BitVec 8 := 93

/-! ## the rules -/

/-- A group has one to four hexadecimal digits. -/
def readGroup (t : List (BitVec 8)) : Option Group :=
  if t.length ≤ 4 then (Numeral.read 16 t).map (BitVec.ofNat 16) else none

/-- Groups with a colon between them; an empty text has none. -/
def readGroups (t : List (BitVec 8)) : Option (List Group) :=
  if t = [] then some [] else (t.splitOn colon).mapM readGroup

/-- What stands before and after the first `"::"`. -/
def cut : List (BitVec 8) → Option (List (BitVec 8) × List (BitVec 8))
  | [] => none
  | c :: t =>
      if c = colon ∧ t.head? = some colon then some ([], t.tail)
      else (cut t).map fun p => (c :: p.1, p.2)

/-- The eight groups of an address. -/
def read (t : List (BitVec 8)) : Option (List Group) :=
  match cut t with
  | none => (readGroups t).bind fun gs => if gs.length = 8 then some gs else none
  | some (front, back) =>
      (readGroups front).bind fun l =>
      (readGroups back).bind fun r =>
        if l.length + r.length < 8 then
          some (l ++ List.replicate (8 - (l.length + r.length)) 0 ++ r)
        else none

/-- `[address]:port`. -/
def readEndpoint (t : List (BitVec 8)) : Option (List Group × Nat) :=
  let address := t.tail.takeWhile (· ≠ closeBracket)
  let rest := t.tail.dropWhile (· ≠ closeBracket)
  if t.head? = some openBracket ∧ rest.take 2 = [closeBracket, colon] then
    (read address).bind fun gs =>
    (Numeral.read 10 (rest.drop 2)).bind fun port =>
      if port < 2 ^ 16 then some (gs, port) else none
  else none

/-! ## groups that are printed -/

/-- A group in hexadecimal. -/
def group (g : Group) : List (BitVec 8) := Numeral.print 16 g.toNat

/-- Groups with a colon between them. -/
def groups (gs : List Group) : List (BitVec 8) := [colon].intercalate (gs.map group)

theorem readGroup_group (g : Group) : readGroup (group g) = some g := by
  have hlen : (group g).length ≤ 4 :=
    (Numeral.length_print_le_iff (by decide) (by decide)).mpr g.isLt
  rw [readGroup, if_pos hlen, group, Numeral.read_print (by decide) (by decide), Option.map_some,
    BitVec.ofNat_toNat, BitVec.setWidth_eq]

/-- No separator is printed in a group. -/
theorem notMem_group {c : BitVec 8} (hc : Numeral.digit c = none) (g : Group) : c ∉ group g :=
  Numeral.notMem_print (by decide) (by decide) hc g.toNat

theorem groups_nil : groups [] = [] := rfl

theorem groups_singleton (g : Group) : groups [g] = group g := List.intercalate_singleton

theorem groups_cons_cons (g g' : Group) (gs : List Group) :
    groups (g :: g' :: gs) = group g ++ colon :: groups (g' :: gs) := by
  rw [groups, List.map_cons, List.map_cons, List.intercalate_cons_cons, List.append_assoc,
    List.singleton_append, ← List.map_cons, ← groups]

/-- One more group behind others. -/
theorem groups_concat {gs : List Group} (h : gs ≠ []) (g : Group) :
    groups (gs ++ [g]) = groups gs ++ colon :: group g := by
  induction gs with
  | nil => exact absurd rfl h
  | cons g₁ gs ih =>
      cases gs with
      | nil => rw [groups_singleton, List.singleton_append, groups_cons_cons, groups_singleton]
      | cons g₂ gs =>
          rw [List.cons_append, List.cons_append, groups_cons_cons, groups_cons_cons,
            List.append_assoc, List.cons_append, ← ih (List.cons_ne_nil _ _), List.cons_append]

/-- The text of a group starts with a digit. -/
theorem exists_groups_cons (g : Group) (gs : List Group) :
    ∃ c t, groups (g :: gs) = c :: t ∧ c ≠ colon := by
  obtain ⟨c, t, hg⟩ := List.exists_cons_of_ne_nil (Numeral.print_ne_nil (b := 16) (n := g.toNat))
  have hc : c ≠ colon := by
    rintro rfl
    exact notMem_group (by decide) g (hg ▸ List.mem_cons_self)
  cases gs with
  | nil => exact ⟨c, t, by rw [groups_singleton, group, hg], hc⟩
  | cons g' gs => exact ⟨c, _, by rw [groups_cons_cons, group, hg, List.cons_append], hc⟩

theorem groups_ne_nil {gs : List Group} (h : gs ≠ []) : groups gs ≠ [] := by
  obtain ⟨g, gs, rfl⟩ := List.exists_cons_of_ne_nil h
  obtain ⟨c, t, htext, -⟩ := exists_groups_cons g gs
  rw [htext]
  exact List.cons_ne_nil _ _

/-- Only digits and colons are printed. -/
theorem notMem_groups {c : BitVec 8} (hc : Numeral.digit c = none) (hcolon : c ≠ colon)
    (gs : List Group) : c ∉ groups gs := by
  induction gs with
  | nil => exact List.not_mem_nil
  | cons g gs ih =>
      cases gs with
      | nil => rw [groups_singleton]; exact notMem_group hc g
      | cons g' gs =>
          rw [groups_cons_cons, List.mem_append, List.mem_cons]
          rintro (hg | hsep | hgs)
          · exact notMem_group hc g hg
          · exact hcolon hsep
          · exact ih hgs

/-! ## groups that are read back -/

theorem readGroups_groups (gs : List Group) : readGroups (groups gs) = some gs := by
  by_cases h : gs = []
  · subst h
    rfl
  · have hsep : ∀ t ∈ gs.map group, colon ∉ t := by
      intro t ht
      obtain ⟨g, -, rfl⟩ := List.mem_map.mp ht
      exact notMem_group (by decide) g
    have hread : readGroup ∘ group = fun g => pure g := funext readGroup_group
    rw [readGroups, if_neg (groups_ne_nil h), groups,
      List.splitOn_intercalate colon hsep (by simpa using h), List.mapM_map, hread, List.mapM_pure,
      List.map_id']
    rfl

/-- A part without colons is before the cut. -/
theorem cut_append {t : List (BitVec 8)} (h : colon ∉ t) (rest : List (BitVec 8)) :
    cut (t ++ rest) = (cut rest).map fun p => (t ++ p.1, p.2) := by
  induction t with
  | nil => simp
  | cons c t ih =>
      rw [List.mem_cons, not_or] at h
      rw [List.cons_append, cut, if_neg fun hc => h.1 hc.1.symm, ih h.2, Option.map_map]
      rfl

/-- Printed groups are before the cut. -/
theorem cut_groups_append (gs : List Group) (rest : List (BitVec 8)) :
    cut (groups gs ++ rest) = (cut rest).map fun p => (groups gs ++ p.1, p.2) := by
  induction gs with
  | nil => simp [groups_nil]
  | cons g gs ih =>
      cases gs with
      | nil => rw [groups_singleton]; exact cut_append (notMem_group (by decide) g) rest
      | cons g' gs =>
          obtain ⟨c, t, htext, hc⟩ := exists_groups_cons g' gs
          have hsingle : cut (colon :: (groups (g' :: gs) ++ rest)) =
              (cut (groups (g' :: gs) ++ rest)).map fun p => (colon :: p.1, p.2) := by
            rw [cut, if_neg]
            rintro ⟨-, hhead⟩
            rw [htext, List.cons_append, List.head?_cons, Option.some.injEq] at hhead
            exact hc hhead
          rw [groups_cons_cons, List.append_assoc, cut_append (notMem_group (by decide) g),
            List.cons_append, hsingle, ih, Option.map_map, Option.map_map]
          simp only [Function.comp_def, List.append_assoc, List.cons_append]

/-- A text of eight groups. -/
inductive Spells : List (BitVec 8) → List Group → Prop where
  /-- All of them are printed. -/
  | full {gs : List Group} : gs.length = 8 → Spells (groups gs) gs
  /-- Those before and after a run of zeros are printed. -/
  | short {l r : List Group} {k : Nat} : l.length + (k + 1) + r.length = 8 →
      Spells (groups l ++ [colon, colon] ++ groups r) (l ++ List.replicate (k + 1) 0 ++ r)

/-- **Every text of an address is read as the address.** -/
theorem Spells.read_eq {t : List (BitVec 8)} {gs : List Group} (h : Spells t gs) :
    read t = some gs := by
  cases h with
  | full hlen =>
      have hcut := cut_groups_append gs []
      rw [List.append_nil] at hcut
      rw [read, hcut, show cut [] = none from rfl, Option.map_none]
      simp only [readGroups_groups, Option.bind_some]
      rw [if_pos hlen]
  | @short l r k hlen =>
      have hcut : cut (groups l ++ [colon, colon] ++ groups r) = some (groups l, groups r) := by
        have hback : cut ([colon, colon] ++ groups r) = some ([], groups r) := by
          rw [List.cons_append, cut, if_pos ⟨rfl, rfl⟩]
          rfl
        rw [List.append_assoc, cut_groups_append, hback, Option.map_some, List.append_nil]
      rw [read, hcut]
      simp only [readGroups_groups, Option.bind_some]
      rw [if_pos (by omega), show 8 - (l.length + r.length) = k + 1 by omega]

theorem Spells.ne_nil {t : List (BitVec 8)} {gs : List Group} (h : Spells t gs) : t ≠ [] := by
  cases h with
  | full hlen =>
      apply groups_ne_nil
      rintro rfl
      cases hlen
  | short _ => simp

/-- There is no bracket in the text of an address. -/
theorem Spells.notMem {t : List (BitVec 8)} {gs : List Group} (h : Spells t gs) {c : BitVec 8}
    (hc : Numeral.digit c = none) (hcolon : c ≠ colon) : c ∉ t := by
  cases h with
  | full _ => exact notMem_groups hc hcolon gs
  | short _ => simp [notMem_groups hc hcolon, hcolon]

/-- **With a port**: `[address]:port` is read as the address and the port. -/
theorem Spells.readEndpoint_eq {t : List (BitVec 8)} {gs : List Group} (h : Spells t gs)
    {port : Nat} (hport : port < 2 ^ 16) :
    readEndpoint (openBracket :: t ++ [closeBracket, colon] ++ Numeral.print 10 port) =
      some (gs, port) := by
  have hin : ∀ c ∈ t, decide (c ≠ closeBracket) = true := by
    intro c hc
    simpa using ne_of_mem_of_not_mem hc (h.notMem (by decide) (by decide))
  have htail : (openBracket :: t ++ [closeBracket, colon] ++ Numeral.print 10 port).tail =
      t ++ closeBracket :: colon :: Numeral.print 10 port := by simp
  have htake : (t ++ closeBracket :: colon :: Numeral.print 10 port).takeWhile
      (· ≠ closeBracket) = t := by
    rw [List.takeWhile_append_of_pos hin, List.takeWhile_cons_of_neg (by simp), List.append_nil]
  have hdrop : (t ++ closeBracket :: colon :: Numeral.print 10 port).dropWhile
      (· ≠ closeBracket) = closeBracket :: colon :: Numeral.print 10 port := by
    rw [List.dropWhile_append_of_pos hin, List.dropWhile_cons_of_neg (by simp)]
  rw [readEndpoint, htail, htake, hdrop, if_pos ⟨rfl, rfl⟩, h.read_eq, Option.bind_some]
  show (Numeral.read 10 (Numeral.print 10 port)).bind _ = _
  rw [Numeral.read_print (by decide) (by decide), Option.bind_some, if_pos hport]

end IPv6Text
