import XzmjxRpc.Net.Address.IPv6

/-!
# XzmjxRpc.Net.Address.Lookup

How `Address::Lookup` cuts a host string into the node and the service it
passes to `getaddrinfo`.

The scan for `":"` stores what it finds in `service` before it looks for a
second one, and nothing takes it back where the node is left empty: a host
with two colons, or with one at its front, is looked up whole, as it should
be, but with a service (`lookup_rule_iff`).  The text of an `IPv4Address` is
such a host (`lookup_toString_ne`).
-/

namespace XzmjxRpc

open IPv4Address (colon)
open IPv6Text (openBracket closeBracket)

/-- `memchr(s.c_str() + start, c, s.size() - start)`, as an index into `s`. -/
def memchr (s : Bytes) (start : Nat) (c : Byte) : Option Nat :=
  ((s.drop start).idxOf? c).map (start + ·)

/-- The first `c` from `start` on. -/
theorem memchr_of_drop {s front rest : Bytes} {start : Nat} {c : Byte}
    (h : s.drop start = front ++ c :: rest) (hc : c ∉ front) :
    memchr s start c = some (start + front.length) := by
  have hidx : (front ++ c :: rest).idxOf? c = some front.length := by
    rw [List.idxOf?_eq_some_iff]
    refine ⟨by simp, by simp, fun j hj heq => hc ?_⟩
    rw [List.getElem_append_left hj] at heq
    exact heq ▸ List.getElem_mem hj
  rw [memchr, h, hidx, Option.map_some]

theorem memchr_eq_none_iff {s : Bytes} {start : Nat} {c : Byte} :
    memchr s start c = none ↔ c ∉ s.drop start := by
  rw [memchr, Option.map_eq_none_iff, List.idxOf?_eq_none_iff]

/-! ## the two scans -/

namespace Address

/-- The variables `node` and `service`; `service` points into the host. -/
structure Query where
  node : Bytes := []
  service : Option Nat := none
  deriving DecidableEq, Repr

/-- The scan of `[xx:xx::xx]:port`.  The character after the last one is the
terminating zero. -/
def scanBracket (host : Bytes) (q : Query) : Query :=
  if host.head? = some openBracket then
    match memchr host 1 closeBracket with
    | some endipv6 =>
        let q := if (host ++ [0])[endipv6 + 1]? = some colon then
          { q with service := some (endipv6 + 2) } else q
        { q with node := (host.drop 1).take (endipv6 - 1) }
    | none => q
  else q

/-- The scan of `www.baidu.com:80`. -/
def scanColon (host : Bytes) (q : Query) : Query :=
  if q.node = [] then
    let q := { q with service := memchr host 0 colon }
    match q.service with
    | some service =>
        if memchr host (service + 1) colon = none then
          { q with node := host.take service, service := some (service + 1) }
        else q
    | none => q
  else q

/-- `Lookup(result, host, …)` up to `getaddrinfo(node.c_str(), service, …)`: the
node and the service it is called with, for a host without a zero byte. -/
def lookup (host : Bytes) : Bytes × Option Bytes :=
  let q := scanColon host (scanBracket host {})
  let q := if q.node = [] then { q with node := host } else q
  (q.node, q.service.map host.drop)

/-! ## the rule -/

/-- The host is `[h]` and then `rest`. -/
def Bracketed (host h rest : Bytes) : Prop :=
  h ≠ [] ∧ closeBracket ∉ h ∧ host = openBracket :: h ++ closeBracket :: rest

/-- The host has one `":"`, with something before it. -/
def OneColon (host n p : Bytes) : Prop :=
  n ≠ [] ∧ colon ∉ n ∧ colon ∉ p ∧ host = n ++ colon :: p

/-- The node and the service a host stands for. -/
inductive Denotes (host : Bytes) : Bytes × Option Bytes → Prop where
  | bracketService {h p : Bytes} : Bracketed host h (colon :: p) → Denotes host (h, some p)
  | bracket {h rest : Bytes} : Bracketed host h rest → rest.head? ≠ some colon →
      Denotes host (h, none)
  | service {n p : Bytes} : (∀ h rest, ¬ Bracketed host h rest) → OneColon host n p →
      Denotes host (n, some p)
  | whole : (∀ h rest, ¬ Bracketed host h rest) → (∀ n p, ¬ OneColon host n p) →
      Denotes host (host, none)

/-! ## with brackets -/

/-- The first scan finds both: the service behind the node's end. -/
theorem scanBracket_of_bracketed {host h rest : Bytes} (hb : Bracketed host h rest) (q : Query) :
    scanBracket host q =
      { node := h
        service := if rest.head? = some colon then some (h.length + 3) else q.service } := by
  obtain ⟨-, hnotin, rfl⟩ := hb
  have hend : memchr (openBracket :: h ++ closeBracket :: rest) 1 closeBracket =
      some (1 + h.length) := memchr_of_drop rfl hnotin
  have hnext : (openBracket :: h ++ closeBracket :: rest ++ [0])[1 + h.length + 1]? =
      some colon ↔ rest.head? = some colon := by
    rw [Nat.add_comm 1, List.append_assoc, List.cons_append, List.getElem?_cons_succ,
      List.getElem?_append_right (by omega), Nat.add_sub_cancel_left]
    cases rest <;> simp [colon]
  have hnode : (List.drop 1 (openBracket :: h ++ closeBracket :: rest)).take (1 + h.length - 1) =
      h := by
    rw [Nat.add_sub_cancel_left]
    exact List.take_left
  rw [scanBracket, if_pos (by rfl), hend]
  simp only [hnode, hnext]
  split <;> simp [Nat.add_comm 1]

/-- A host in brackets denotes what stands in them, and the service behind. -/
theorem lookup_of_bracketed {host h rest : Bytes} (hb : Bracketed host h rest) :
    lookup host = (h, if rest.head? = some colon then some rest.tail else none) := by
  have htail : host.drop (h.length + 3) = rest.tail := by
    rw [hb.2.2, List.cons_append, List.drop_succ_cons, List.drop_append]
    simp
  rw [lookup, scanBracket_of_bracketed hb, scanColon, if_neg hb.1, if_neg hb.1]
  split <;> simp [htail]

/-! ## without brackets -/

/-- Elsewhere the first scan leaves no node. -/
theorem node_scanBracket {host : Bytes} (hb : ∀ h rest, ¬ Bracketed host h rest) :
    (scanBracket host {}).node = [] := by
  unfold scanBracket
  split
  · next hopen =>
      obtain ⟨host, rfl⟩ : ∃ t, host = openBracket :: t := by
        cases host with
        | nil => cases hopen
        | cons c t => exact ⟨t, by simpa using hopen⟩
      by_cases hclose : closeBracket ∈ host
      · obtain ⟨h, rest, rfl, hnotin⟩ := List.eq_append_cons_of_mem hclose
        have hnil : h = [] := by
          by_contra hne
          exact hb h rest ⟨hne, hnotin, rfl⟩
        subst hnil
        have hend : memchr (openBracket :: ([] ++ closeBracket :: rest)) 1 closeBracket = some 1 :=
          memchr_of_drop rfl hnotin
        rw [hend]
        rfl
      · rw [memchr_eq_none_iff.mpr hclose]
  · rfl

/-- A host without a colon is a node. -/
theorem lookup_of_notMem {host : Bytes} (hb : ∀ h rest, ¬ Bracketed host h rest)
    (hc : colon ∉ host) : lookup host = (host, none) := by
  rw [lookup, scanColon, if_pos (node_scanBracket hb), memchr_eq_none_iff.mpr hc]
  simp [node_scanBracket hb]

/-- With a colon there is a service, whatever becomes of the node. -/
theorem lookup_of_colon {n p : Bytes} (hb : ∀ h rest, ¬ Bracketed (n ++ colon :: p) h rest)
    (hn : colon ∉ n) :
    lookup (n ++ colon :: p) =
      if colon ∈ p then (n ++ colon :: p, some (colon :: p))
      else if n = [] then (n ++ colon :: p, some p) else (n, some p) := by
  have hfirst : memchr (n ++ colon :: p) 0 colon = some (0 + n.length) := memchr_of_drop rfl hn
  rw [Nat.zero_add] at hfirst
  have hrest : (n ++ colon :: p).drop (n.length + 1) = p := by
    rw [List.drop_append]
    simp
  rw [lookup, scanColon, if_pos (node_scanBracket hb), hfirst]
  simp only [memchr_eq_none_iff, hrest]
  by_cases hp : colon ∈ p
  · simp [hp, node_scanBracket hb]
  · by_cases hnil : n = []
    · simp [hp, hnil]
    · simp [hp, hnil, hrest]

/-- A node that is left empty keeps the service. -/
theorem lookup_of_not_oneColon {host : Bytes} (hb : ∀ h rest, ¬ Bracketed host h rest)
    (hc : colon ∈ host) (hone : ∀ n p, ¬ OneColon host n p) :
    ∃ service, lookup host = (host, some service) := by
  obtain ⟨n, p, rfl, hn⟩ := List.eq_append_cons_of_mem hc
  rw [lookup_of_colon hb hn]
  by_cases hp : colon ∈ p
  · exact ⟨_, if_pos hp⟩
  · have hnil : n = [] := by
      by_contra hne
      exact hone n p ⟨hne, hn, hp, rfl⟩
    exact ⟨p, by rw [if_neg hp, if_pos hnil]⟩

/-! ## the rule is met -/

theorem denotes_of_bracketed {host h rest : Bytes} (hb : Bracketed host h rest) :
    Denotes host (lookup host) := by
  rw [lookup_of_bracketed hb]
  by_cases hhead : rest.head? = some colon
  · obtain ⟨p, rfl⟩ : ∃ p, rest = colon :: p := by
      cases rest with
      | nil => cases hhead
      | cons c p => exact ⟨p, by simpa using hhead⟩
    exact .bracketService hb
  · rw [if_neg hhead]
    exact .bracket hb hhead

theorem denotes_of_oneColon {host n p : Bytes} (hb : ∀ h rest, ¬ Bracketed host h rest)
    (hone : OneColon host n p) : Denotes host (lookup host) := by
  obtain ⟨hne, hn, hp, rfl⟩ := hone
  rw [lookup_of_colon hb hn, if_neg hp, if_neg hne]
  exact .service hb ⟨hne, hn, hp, rfl⟩

/-- A host looked up whole has no service; any other host with a colon is given
one. -/
theorem not_denotes_of_colon {host : Bytes} (hb : ∀ h rest, ¬ Bracketed host h rest)
    (hc : colon ∈ host) (hone : ∀ n p, ¬ OneColon host n p) : ¬ Denotes host (lookup host) := by
  obtain ⟨service, hlookup⟩ := lookup_of_not_oneColon hb hc hone
  rw [hlookup]
  intro hd
  cases hd with
  | bracketService h => exact hb _ _ h
  | service _ h => exact hone _ _ h

/-- **Any host**: the node and the service are those the host denotes exactly
when it is in brackets, has no colon, or has one colon with something before
it. -/
theorem lookup_rule_iff (host : Bytes) :
    Denotes host (lookup host) ↔
      (∃ h rest, Bracketed host h rest) ∨ colon ∉ host ∨ ∃ n p, OneColon host n p := by
  by_cases hbr : ∃ h rest, Bracketed host h rest
  · obtain ⟨h, rest, hb⟩ := hbr
    exact iff_of_true (denotes_of_bracketed hb) (.inl ⟨h, rest, hb⟩)
  have hb : ∀ h rest, ¬ Bracketed host h rest := fun h rest hb => hbr ⟨h, rest, hb⟩
  by_cases hone : ∃ n p, OneColon host n p
  · obtain ⟨n, p, hone⟩ := hone
    exact iff_of_true (denotes_of_oneColon hb hone) (.inr (.inr ⟨n, p, hone⟩))
  have hnone : ∀ n p, ¬ OneColon host n p := fun n p h => hone ⟨n, p, h⟩
  by_cases hc : colon ∈ host
  · refine iff_of_false (not_denotes_of_colon hb hc hnone) ?_
    rintro (h | h | h)
    · exact hbr h
    · exact h hc
    · exact hone h
  · rw [lookup_of_notMem hb hc]
    exact iff_of_true (.whole hb hnone) (.inr (.inl hc))

/-- `::1` is looked up with the service `::1`. -/
theorem not_denotes_two_colons : ¬ Denotes [58, 58, 49] (lookup [58, 58, 49]) := by
  have hlookup : lookup [58, 58, 49] = ([58, 58, 49], some [58, 58, 49]) := by decide +kernel
  rw [hlookup]
  intro hd
  cases hd with
  | bracketService h => exact absurd (congrArg List.head? h.2.2) (by decide)
  | service _ h => exact absurd List.mem_cons_self h.2.2.1

end Address

/-! ## the text of an address -/

namespace IPv4Address

open Address

/-- `"."`. -/
def dot : Byte := 46

variable [Machine]

/-- The address in dotted-quad form. -/
def dottedQuad (a : IPv4Address) : Bytes :=
  let addr : BitVec 32 := endianCastByType (n := 4) a.sinAddr .big
  decimal (addr >>> 24).toNat ++ [dot] ++ decimal ((addr >>> 16) &&& 0xff).toNat ++
    [dot] ++ decimal ((addr >>> 8) &&& 0xff).toNat ++ [dot] ++ decimal (addr &&& 0xff).toNat

/-- There is no colon in dotted-quad form. -/
theorem colon_notMem_dottedQuad (a : IPv4Address) : colon ∉ a.dottedQuad := by
  simp [dottedQuad, colon_notMem_decimal, show colon ≠ dot by decide]

/-- The text starts with a number, a colon, and more colons. -/
theorem toString_eq (a : IPv4Address) :
    ∃ n p, a.toString = decimal n ++ colon :: p ∧ colon ∈ p := by
  simp only [toString, List.append_assoc, List.singleton_append]
  exact ⟨_, _, rfl, by simp⟩

omit [Machine] in
/-- A host that starts with a number is not in brackets. -/
theorem not_bracketed_decimal (n : Nat) (s h rest : Bytes) :
    ¬ Bracketed (decimal n ++ s) h rest := by
  rintro ⟨-, -, heq⟩
  obtain ⟨c, t, hdec⟩ := List.exists_cons_of_ne_nil (Numeral.print_ne_nil (b := 10) (n := n))
  have hmem : c ∈ decimal n := by rw [decimal_eq, hdec]; exact List.mem_cons_self
  rw [decimal_eq, hdec, List.cons_append, List.cons_append, List.cons.injEq] at heq
  exact notMem_decimal (by decide) n (heq.1 ▸ hmem)

/-- **Never**: the text of an address is looked up whole, and not as a
dotted quad and a port. -/
theorem lookup_toString_ne (a : IPv4Address) :
    lookup a.toString ≠ (a.dottedQuad, some (decimal a.getPort.toNat)) := by
  obtain ⟨n, p, htext, hp⟩ := a.toString_eq
  intro heq
  rw [htext, lookup_of_colon (not_bracketed_decimal n _) (colon_notMem_decimal n), if_pos hp] at heq
  have hnode : decimal n ++ colon :: p = a.dottedQuad := congrArg Prod.fst heq
  exact a.colon_notMem_dottedQuad (hnode ▸ by simp)

omit [Machine] in
/-- 127.0.0.1:9999, as the registry hands it out. -/
theorem not_lookup_toString_localhost : letI := x86_64
    ¬ ∀ a : IPv4Address, lookup a.toString = (a.dottedQuad, some (decimal a.getPort.toNat)) := by
  intro h
  let m := x86_64
  exact absurd (h (ofHost 0x7f000001 9999)) (by decide +kernel)

end IPv4Address

/-- The text of an `IPv6Address` is in brackets, and is cut where it was put
together. -/
theorem IPv6Address.lookup_toString [Machine] (a : IPv6Address) :
    ∃ t, IPv6Text.Spells t ((List.range 8).map a.group) ∧
      Address.lookup a.toString = (t, some (decimal a.getPort.toNat)) := by
  obtain ⟨t, hspells, htext⟩ := a.spells_toString
  have hne : t ≠ [] := hspells.ne_nil
  have hb : Address.Bracketed a.toString t (colon :: decimal a.getPort.toNat) := by
    refine ⟨hne, hspells.notMem (by decide) (by decide), ?_⟩
    rw [htext, List.append_assoc]
    rfl
  exact ⟨t, hspells, Address.lookup_of_bracketed hb⟩

end XzmjxRpc
