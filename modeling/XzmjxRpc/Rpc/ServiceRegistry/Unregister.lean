import XzmjxRpc.Lib.Run
import XzmjxRpc.Rpc.ServiceRegistry

/-!
# XzmjxRpc.Rpc.ServiceRegistry.Unregister

`unregisterService` on the registries that registrations and removals lead to.

In all of them the two maps hold the same pairs (`Agree`).  The removal visits
the entries of a service once for every registration of the service by the
address: with a service registered twice it collects the same iterators twice
and erases through dead ones; otherwise it removes exactly the entries of the
address (`unregistersRight_iff`).
-/

namespace XzmjxRpc
namespace Registry

/-- The two maps hold the same (service, address) pairs, each as often. -/
def Agree (r : Registry) : Prop :=
  (r.servicesProvider.pairs.map Prod.swap).Perm r.addressToService.pairs

/-- The services of an address, once for each registration. -/
def services (r : Registry) (addr : Bytes) : List Bytes :=
  (r.addressToService.equalRange addr).map (·.val)

theorem agree_empty : empty.Agree := List.Perm.refl _

theorem Agree.add {r : Registry} (h : r.Agree) (service addr : Bytes) :
    (r.add service addr).Agree := by
  simpa [Agree, Registry.add] using h.append_right [(addr, service)]

/-- A service entry of the address stands for one of its registrations. -/
theorem Agree.mem_pairs_iff {r : Registry} (h : r.Agree) {service addr : Bytes} :
    (service, addr) ∈ r.servicesProvider.pairs ↔ (addr, service) ∈ r.addressToService.pairs := by
  rw [← List.Perm.mem_iff h]
  simp

theorem mem_services {r : Registry} {service addr : Bytes} :
    service ∈ r.services addr ↔ (addr, service) ∈ r.addressToService.pairs := by
  simp [services, Multimap.mem_equalRange, Multimap.mem_pairs]
  grind

/-! ## the collected iterators -/

/-- An iterator is collected for an entry of the address, when its service is
among those of the address. -/
theorem mem_del {r : Registry} {addr : Bytes} {i : Nat} :
    i ∈ r.del addr ↔ ∃ n ∈ r.servicesProvider.nodes,
      n.id = i ∧ n.val = addr ∧ n.key ∈ r.services addr := by
  simp only [del, services, List.mem_flatMap, List.mem_map, List.mem_filter,
    Multimap.mem_equalRange, decide_eq_true_eq]
  grind

theorem alive_of_mem_del {r : Registry} {addr : Bytes} {i : Nat} (h : i ∈ r.del addr) :
    r.servicesProvider.Alive i := by
  obtain ⟨n, hn, rfl, -⟩ := mem_del.mp h
  exact List.mem_map_of_mem hn

/-- When the maps agree, the iterators of all entries of the address are collected. -/
theorem Agree.mem_del_iff {r : Registry} (h : r.Agree) {addr : Bytes}
    {n : Multimap.Node Bytes Bytes} (hn : n ∈ r.servicesProvider.nodes) :
    n.id ∈ r.del addr ↔ n.val = addr := by
  rw [mem_del]
  constructor
  · rintro ⟨n', hn', hid, hval, -⟩
    rwa [← Multimap.eq_of_id_eq hn' hn hid]
  · rintro rfl
    refine ⟨n, hn, rfl, rfl, ?_⟩
    rw [mem_services, ← h.mem_pairs_iff]
    exact Multimap.mem_pairs.mpr ⟨n, hn, rfl⟩

/-- **No iterator is collected twice** exactly when no service is there twice. -/
theorem Agree.nodup_del_iff {r : Registry} (h : r.Agree) {addr : Bytes} :
    (r.del addr).Nodup ↔ (r.services addr).Nodup := by
  have hservices : (r.services addr).Nodup ↔
      (r.addressToService.equalRange addr).Pairwise (·.val ≠ ·.val) := List.pairwise_map
  rw [hservices, del, List.nodup_flatMap]
  constructor
  · intro hdel
    refine hdel.2.imp_of_mem ?_
    intro iter iter' hiter _ hdisj heq
    -- an entry for the service of both would be collected for each of them
    have hpair : (iter.val, addr) ∈ r.servicesProvider.pairs := by
      rw [h.mem_pairs_iff, ← mem_services]
      exact List.mem_map_of_mem hiter
    obtain ⟨n, hn, hkv⟩ := Multimap.mem_pairs.mp hpair
    simp only [Prod.mk.injEq] at hkv
    have hmem : ∀ it : Multimap.Node Bytes Bytes, it.val = iter.val →
        n.id ∈ ((r.servicesProvider.equalRange it.val).filter (·.val = addr)).map (·.id) := by
      intro it hit
      refine List.mem_map_of_mem (List.mem_filter.mpr ⟨?_, by simp [hkv.2]⟩)
      exact Multimap.mem_equalRange.mpr ⟨hn, by rw [hkv.1, hit]⟩
    exact hdisj (hmem iter rfl) (hmem iter' heq.symm)
  · intro hne
    refine ⟨?_, ?_⟩
    · intro iter _
      exact r.servicesProvider.nodup.sublist
        ((List.filter_sublist.trans List.filter_sublist).map _)
    · refine hne.imp ?_
      intro iter iter' hne i hi hi'
      simp only [List.mem_map, List.mem_filter, Multimap.mem_equalRange] at hi hi'
      obtain ⟨n, ⟨⟨hn, hkey⟩, -⟩, hid⟩ := hi
      obtain ⟨n', ⟨⟨hn', hkey'⟩, -⟩, hid'⟩ := hi'
      have heq := Multimap.eq_of_id_eq hn hn' (hid.trans hid'.symm)
      exact hne (by rw [← hkey, ← hkey', heq])

/-! ## the removal -/

/-- The registry without the entries of an address. -/
def without (r : Registry) (addr : Bytes) : Registry where
  servicesProvider := r.servicesProvider.filter (·.val ≠ addr)
  addressToService := r.addressToService.eraseRange addr

theorem Agree.without {r : Registry} (h : r.Agree) (addr : Bytes) : (r.without addr).Agree := by
  have hfilter := List.Perm.filter (fun p => decide (p.1 ≠ addr)) h
  simpa [Agree, Registry.without, Multimap.pairs, List.filter_map, Function.comp_def] using hfilter

/-- Without services of the address there is nothing to remove. -/
theorem Agree.without_eq_self {r : Registry} (h : r.Agree) {addr : Bytes}
    (hnil : r.services addr = []) : r.without addr = r := by
  have hkeys : r.addressToService.nodes.filter (·.key ≠ addr) = r.addressToService.nodes := by
    rw [List.filter_eq_self]
    intro n hn
    by_contra hkey
    have hmem : n.val ∈ r.services addr :=
      List.mem_map_of_mem (Multimap.mem_equalRange.mpr ⟨hn, by simpa using hkey⟩)
    simp [hnil] at hmem
  have hvals : r.servicesProvider.nodes.filter (·.val ≠ addr) = r.servicesProvider.nodes := by
    rw [List.filter_eq_self]
    intro n hn
    by_contra hval
    have hmem : n.key ∈ r.services addr := by
      rw [mem_services, ← h.mem_pairs_iff]
      exact Multimap.mem_pairs.mpr ⟨n, hn, by simpa using hval⟩
    simp [hnil] at hmem
  have hsp : r.servicesProvider.filter (·.val ≠ addr) = r.servicesProvider :=
    Multimap.ext hvals rfl
  have has : r.addressToService.eraseRange addr = r.addressToService := Multimap.ext hkeys rfl
  rw [Registry.without, hsp, has]

/-- **The removal**, when the maps agree: it erases the entries of the address
if no service is there twice, and else goes through a dead iterator. -/
theorem Agree.unregisterService_eq {r : Registry} (h : r.Agree) (addr : Bytes) :
    r.unregisterService addr =
      if (r.services addr).Nodup then .ok (r.without addr) else .error .deadIterator := by
  have hsome : (Multimap.eraseAll (r.del addr) r.servicesProvider).isSome ↔ _ :=
    Multimap.isSome_eraseAll
  have halive : ∀ i ∈ r.del addr, r.servicesProvider.Alive i := fun i hi => alive_of_mem_del hi
  rw [and_iff_left halive, h.nodup_del_iff] at hsome
  unfold unregisterService
  split
  · next hnil =>
    have hservices : r.services addr = [] := by rw [services, hnil, List.map_nil]
    rw [if_pos (by simp [hservices]), h.without_eq_self hservices]
  · split
    · next hnone =>
      rw [hnone] at hsome
      rw [if_neg (by simpa using hsome)]
    · next m hm =>
      rw [hm] at hsome
      rw [if_pos (by simpa using hsome)]
      obtain ⟨hnodes, hnext⟩ := Multimap.nodes_eraseAll hm
      have hm' : m = r.servicesProvider.filter (·.val ≠ addr) := by
        refine Multimap.ext ?_ hnext
        rw [hnodes, Multimap.nodes_filter]
        apply List.filter_congr
        intro n hn
        simp [h.mem_del_iff hn]
      rw [hm']
      rfl

/-! ## every sequence of operations -/

section
variable [Machine]

/-- The name that a registration request carries. -/
def serviceName (req : Protocol) : Option Bytes :=
  if req.payload = [] then none
  else
    match Serializer.get (Serializer.ofString req.payload) .string ([] : Bytes) with
    | .error _ => none
    | .ok (service, _) => some service

/-- A registration adds the name it carries, or nothing. -/
theorem handleRegisterService_snd (r : Registry) (addr : Bytes) (req : Protocol) :
    (r.handleRegisterService addr req).2 =
      match serviceName req with
      | none => r
      | some service => r.add service addr := by
  unfold handleRegisterService serviceName
  split
  · rfl
  · cases Serializer.get (Serializer.ofString req.payload) .string ([] : Bytes) <;> rfl

theorem Agree.handleRegisterService {r : Registry} (h : r.Agree) (addr : Bytes) (req : Protocol) :
    (r.handleRegisterService addr req).2.Agree := by
  rw [handleRegisterService_snd]
  cases serviceName req with
  | none => exact h
  | some service => exact h.add service addr

/-- An operation on the maps. -/
inductive Op where
  | register (addr : Bytes) (req : Protocol)
  | unregister (addr : Bytes)

/-- An operation that goes through. -/
inductive OpStep : Registry → Op → Registry → Prop
  | register (r : Registry) (addr : Bytes) (req : Protocol) :
      OpStep r (.register addr req) (r.handleRegisterService addr req).2
  | unregister {r r' : Registry} {addr : Bytes} (h : r.unregisterService addr = .ok r') :
      OpStep r (.unregister addr) r'

theorem OpStep.agree {r r' : Registry} {op : Op} (hr : r.Agree) (h : OpStep r op r') :
    r'.Agree := by
  cases h with
  | register addr req => exact hr.handleRegisterService addr req
  | unregister h =>
      rw [hr.unregisterService_eq] at h
      split at h <;> cases h
      exact hr.without _

/-- Whatever was registered and removed, the maps agree. -/
theorem agree_of_run {ops : List Op} {r : Registry} (h : Lts.Run OpStep empty ops r) : r.Agree :=
  h.invariant agree_empty fun _ _ _ hr hstep => hstep.agree hr

omit [Machine] in
/-- `unregisterService(server_addr)` does what it should. -/
structure UnregistersRight (r : Registry) (addr : Bytes) : Prop where
  /-- No iterator is collected twice. -/
  del_nodup : (r.del addr).Nodup
  /-- The entries of the address are collected, and nothing else. -/
  mem_del_iff : ∀ n ∈ r.servicesProvider.nodes, n.id ∈ r.del addr ↔ n.val = addr
  /-- These entries are erased, the others stay in place, and the maps agree. -/
  removes : ∃ r', r.unregisterService addr = .ok r' ∧
    r'.servicesProvider.nodes = r.servicesProvider.nodes.filter (·.val ≠ addr) ∧
    r'.addressToService.nodes = r.addressToService.nodes.filter (·.key ≠ addr) ∧ r'.Agree ∧
    (∀ p ∈ r'.servicesProvider.pairs, p.2 ≠ addr) ∧ ∀ p ∈ r'.addressToService.pairs, p.1 ≠ addr

/-- **Removing a provider**, after any registrations and removals, does what
it should exactly when no service was registered twice for its address. -/
theorem unregistersRight_iff {ops : List Op} {r : Registry} (h : Lts.Run OpStep empty ops r)
    (addr : Bytes) : UnregistersRight r addr ↔ (r.services addr).Nodup := by
  have hr := agree_of_run h
  constructor
  · intro hu
    exact hr.nodup_del_iff.mp hu.del_nodup
  · intro hnodup
    refine ⟨hr.nodup_del_iff.mpr hnodup, fun n hn => hr.mem_del_iff hn, r.without addr, ?_⟩
    refine ⟨by rw [hr.unregisterService_eq, if_pos hnodup], rfl, rfl, hr.without addr, ?_, ?_⟩
    · simp only [Multimap.mem_pairs, without, Multimap.nodes_filter, List.mem_filter]
      grind
    · simp only [Multimap.mem_pairs, without, Multimap.nodes_eraseRange, List.mem_filter]
      grind

end

/-- A request to register the service "s". -/
def registerS : Protocol := .createSuccess .kRpcServiceRegisterRequest [1, 115] 0

theorem unregistersRight_iff_once :
    letI := x86_64
    UnregistersRight (empty.handleRegisterService [97] registerS).2 [97] ↔
      ((empty.handleRegisterService [97] registerS).2.services [97]).Nodup :=
  @unregistersRight_iff x86_64 [.register [97] registerS] _
    (.single (@OpStep.register x86_64 _ _ _)) [97]

/-- A service registered twice for one address. -/
theorem not_unregistersRight_twice :
    letI := x86_64
    ∃ ops r addr, Lts.Run OpStep empty ops r ∧ ¬ UnregistersRight r addr ∧
      r.unregisterService addr = .error .deadIterator := by
  let m := x86_64
  refine ⟨_, _, [97], .append (.single (.register empty [97] registerS))
    (.single (.register _ [97] registerS)), ?_, ?_⟩
  · intro h
    exact absurd h.del_nodup (by decide +kernel)
  · have honce := agree_empty.handleRegisterService [97] registerS
    rw [(honce.handleRegisterService [97] registerS).unregisterService_eq]
    exact if_neg (by decide +kernel)

end Registry
end XzmjxRpc
