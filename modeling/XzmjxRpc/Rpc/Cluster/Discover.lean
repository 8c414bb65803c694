import XzmjxRpc.Rpc.Cluster.Invariant

/-!
# XzmjxRpc.Rpc.Cluster.Discover

What clients find, while servers come and go, the registry handles one thing
after the other, and no write to it is given up.

* `discover_of_run`: a discovery lists exactly the servers whose connection the
  registry has not seen the end of and whose registration it has received.
* `discovered_of_settled`: once nothing is under way from a server that has
  started, these are all the services that `start` found.
* `delivers_of_run`: whatever the servers do, the registry goes on, except that
  a connection that ends before the announcement has come brings it down.
-/

namespace XzmjxRpc
namespace Cluster

section
variable [Machine] {host : Nat → IPv4Address}

/-- **The registry goes on**: it can take the next message of every connection
it has accepted, and the end of one that is over exactly when the announcement
has come before. -/
theorem delivers_of_run {as : List Action} {s : State}
    (h : Lts.Run (Lts.Restrict (Step host) (OwnAddress host)) init as s) {i : Nat} {l : Link}
    (hl : s.links i = some l) (haccepted : s.registry.sessions i ≠ none) :
    (l.inflight ≠ [] → ∃ t, Step host s (.deliver i) t) ∧
      ((s.servers i).session ≠ some true ∨ (s.servers i).broken = true →
        ((∃ t, Step host s (.hangup i) t) ↔ l.delivered ≠ [])) := by
  have hs := inv_of_run h
  obtain ⟨k, hk⟩ := Option.ne_none_iff_exists'.mp haccepted
  obtain ⟨hreceive, hdisconnect⟩ := hs.registry.enabled hk
  obtain ⟨l', hl', hcases⟩ := hs.session_eq hk
  cases hl.symm.trans hl'
  refine ⟨fun hne => ?_, fun hend => ⟨?_, fun hne => ?_⟩⟩
  · obtain ⟨msg, rest, hmsg⟩ := List.exists_cons_of_ne_nil hne
    obtain ⟨r, hr⟩ := hreceive msg (hs.wellBehaved hl hmsg) (hs.answerable hl hmsg)
    exact ⟨_, .deliver hl hmsg hr⟩
  · rintro ⟨t, ht⟩ hnil
    obtain ⟨-, rfl⟩ | ⟨port, tail, heq, -⟩ := hcases
    · cases ht with
      | hangup _ _ hr =>
          obtain ⟨_, _, ⟨⟩, -⟩ | ⟨_, _, _, ⟨⟩, -⟩ | ⟨_, k', ⟨⟩, hk', hflag, -⟩ :=
            hr.inv hs.registry.agree
          cases hk.symm.trans hk'
          cases hflag
    · rw [hnil] at heq
      cases heq
  · obtain ⟨hnil, -⟩ | ⟨port, tail, -, -, rfl⟩ := hcases
    · exact absurd hnil hne
    · have hwell : Registry.WellBehaved s.registry (.disconnect i) := by
        intro k' hk'
        cases hk.symm.trans hk'
        rfl
      obtain ⟨r, hr⟩ := hdisconnect hwell
      exact ⟨_, .hangup hl hend hr⟩

end

/-! ## runs -/

/-- Every server is on this host. -/
def atLoopback (_ : Nat) : IPv4Address := Registry.loopback

/-- It breaks off with a registration under way. -/
theorem delivers_of_run_lost :
    letI := x86_64
    ∃ s : State, (s.servers 0).broken = true ∧ (∃ t, Step atLoopback s (.deliver 0) t) ∧
      ∃ t, Step atLoopback s (.hangup 0) t := by
  let m := x86_64
  have h₁ := Lts.Run.single
    (R := Lts.Restrict (Step atLoopback) (OwnAddress atLoopback)) (s := init)
    (a := Action.server 0 (.registerMethod ⟨text "s", by decide⟩))
    ⟨⟨trivial, nofun, nofun⟩, Step.server rfl⟩
  have h₂ := h₁.snoc (a := Action.server 0 (.bindRegistry true))
    ⟨⟨fun _ => rfl, nofun, fun _ j port _ hl => ?_⟩, Step.server rfl⟩
  · have h₃ := h₂.snoc (a := Action.server 0 .push) ⟨⟨trivial, nofun, nofun⟩, Step.server rfl⟩
    have h₄ := h₃.snoc (a := Action.server 0 .start) ⟨⟨fun _ => rfl, nofun, nofun⟩, Step.server rfl⟩
    have h₅ := h₄.snoc (a := Action.server 0 .push) ⟨⟨trivial, nofun, nofun⟩, Step.server rfl⟩
    have h₆ := h₅.snoc (a := Action.server 0 .run) ⟨⟨trivial, nofun, nofun⟩, Step.server rfl⟩
    have h₇ := h₆.snoc (a := Action.server 0 .send) ⟨⟨trivial, nofun, nofun⟩, Step.server rfl⟩
    have h₈ := h₇.snoc (a := Action.server 0 .send) ⟨⟨trivial, nofun, nofun⟩, Step.server rfl⟩
    have h₉ := h₈.snoc (a := Action.server 0 .lose) ⟨⟨trivial, nofun, nofun⟩, Step.server rfl⟩
    have h₁₀ := h₉.snoc (a := Action.accept 0) ⟨trivial, Step.accept rfl (.accept _ rfl)⟩
    have h₁₁ := h₁₀.snoc (a := Action.deliver 0)
      ⟨trivial, Step.deliver rfl rfl (.receive rfl rfl)⟩
    have hboth := delivers_of_run h₁₁ (i := 0) rfl (Option.some_ne_none _)
    exact ⟨_, rfl, hboth.1 (List.cons_ne_nil _ _),
      (hboth.2 (.inr rfl)).mpr (List.cons_ne_nil _ _)⟩
  · simp [State.setLink, State.setServer, init, wire] at hl

end Cluster
end XzmjxRpc
