import XzmjxRpc.Rpc.Server.Clients

/-!
# XzmjxRpc.Rpc.Server.Clients.Close

`Socket::close()` of a client, statement by statement.

* `Socket.Down` — what the statements keep, however many calls are under way;
* `Socket.Settled` — what they keep where there is one call at a time;
* `Settled.closeStmt_holds` — what such a call passes to `::close`.
-/

namespace XzmjxRpc
namespace Clients

/-- `m_is_connect = false` comes before the statement. -/
def CloseAt.down : CloseAt → Bool
  | .test | .disconnect => false
  | .check | .close | .forget => true

namespace Socket

variable {sock : Socket} {k : Nat} {stmt : CloseAt}

/-- A call of `close()` that has come so far has cleared `m_is_connect`. -/
def Down (sock : Socket) : Prop :=
  ∀ stmt ∈ sock.closing, stmt.down = true → sock.isConnect = false

/-- What holds between steps of a socket that one call of `close()` at a time is
under way for. -/
structure Settled (sock : Socket) : Prop where
  one : sock.closing.length ≤ 1
  /-- Before and after the call `m_is_connect` and `m_sock_fd` agree. -/
  agree : (∀ stmt ∈ sock.closing, stmt = .test) → sock.isConnect = sock.sockFd.isSome

@[simp] theorem goOn_isConnect (next : Option CloseAt) :
    (sock.goOn k next).isConnect = sock.isConnect := by
  cases next <;> rfl

@[simp] theorem goOn_sockFd (next : Option CloseAt) :
    (sock.goOn k next).sockFd = sock.sockFd := by
  cases next <;> rfl

theorem mem_goOn {next : Option CloseAt} {stmt : CloseAt}
    (h : stmt ∈ (sock.goOn k next).closing) : stmt ∈ sock.closing ∨ next = some stmt := by
  cases next with
  | none => exact .inl (List.mem_of_mem_eraseIdx h)
  | some st => exact (List.mem_or_eq_of_mem_set h).imp id fun he => congrArg some he.symm

/-- No statement connects the socket again. -/
theorem closeStmt_isConnect (h : sock.isConnect = false) :
    (sock.closeStmt k stmt).1.isConnect = false := by
  cases stmt <;> simp [closeStmt, h]

theorem Down.close (h : sock.Down) : sock.close.Down := by
  intro stmt hmem hdown
  rcases List.mem_append.mp hmem with hmem | hmem
  · exact h stmt hmem hdown
  · cases List.mem_singleton.mp hmem
    cases hdown

theorem Down.closeStmt (h : sock.Down) (hk : sock.closing[k]? = some stmt) :
    (sock.closeStmt k stmt).1.Down := by
  have hstmt := h stmt (List.mem_of_getElem? hk)
  intro st hmem hdown
  by_cases hst : st ∈ sock.closing
  · exact closeStmt_isConnect (h st hst hdown)
  -- the statement that this call has come to
  cases stmt with
  | test =>
      rcases mem_goOn hmem with hmem | hnext
      · exact absurd hmem hst
      · split at hnext <;> cases hnext
        cases hdown
  | disconnect => exact goOn_isConnect _
  | check | close | forget => exact closeStmt_isConnect (hstmt rfl)

/-- After a statement of it a call of `close()` is still under way, or the socket is closed. -/
theorem Down.closed (h : sock.Down) (hk : sock.closing[k]? = some stmt) :
    (sock.closeStmt k stmt).1.isConnect = false ∨ (sock.closeStmt k stmt).1.closing ≠ [] := by
  have hstmt := h stmt (List.mem_of_getElem? hk)
  cases stmt with
  | test =>
      by_cases hc : sock.isConnect = false
      · exact .inl (closeStmt_isConnect hc)
      · refine .inr ?_
        obtain ⟨hlt, -⟩ := List.getElem?_eq_some_iff.mp hk
        rw [Socket.closeStmt, if_neg fun hand => hc hand.1]
        exact List.ne_nil_of_length_pos (by rw [goOn, List.length_set]; omega)
  | disconnect => exact .inl (goOn_isConnect _)
  | check | close | forget => exact .inl (closeStmt_isConnect (hstmt rfl))

/-- The call is the only one. -/
theorem Settled.eq_singleton (h : sock.Settled) (hk : sock.closing[k]? = some stmt) :
    k = 0 ∧ sock.closing = [stmt] := by
  obtain ⟨hlt, hget⟩ := List.getElem?_eq_some_iff.mp hk
  have hone := h.one
  have hzero : k = 0 := by omega
  subst hzero
  refine ⟨rfl, ?_⟩
  obtain ⟨st, hst⟩ := List.length_eq_one_iff.mp (by omega : sock.closing.length = 1)
  simp only [hst, List.getElem_singleton] at hget
  rw [hst, hget]

theorem Settled.close (h : sock.Settled) (hnil : sock.closing = []) : sock.close.Settled where
  one := by
    simp [Socket.close, hnil]
  agree := fun _ => h.agree (by rw [hnil]; nofun)

/-- **One statement** of the only call. -/
theorem Settled.closeStmt (h : sock.Settled) (hd : sock.Down)
    (hk : sock.closing[k]? = some stmt) : (sock.closeStmt k stmt).1.Settled := by
  obtain ⟨rfl, hone⟩ := h.eq_singleton hk
  have hdown := hd stmt (List.mem_of_getElem? hk)
  have hagree := h.agree
  obtain ⟨fd, conn, closing⟩ := sock
  simp only at hone hdown hagree
  subst hone
  cases stmt with
  | test =>
      rw [Socket.closeStmt]
      split
      · exact ⟨Nat.zero_le 1, fun _ => hagree (by simp)⟩
      · exact ⟨le_rfl, fun hall => by cases hall _ (List.mem_singleton_self _)⟩
  | disconnect => exact ⟨le_rfl, fun hall => by cases hall _ (List.mem_singleton_self _)⟩
  | check =>
      rw [Socket.closeStmt]
      split
      · next hfd =>
          refine ⟨Nat.zero_le 1, fun _ => ?_⟩
          simp only [goOn_isConnect, goOn_sockFd]
          rw [hdown rfl, show fd = none from hfd]
          rfl
      · exact ⟨le_rfl, fun hall => by cases hall _ (List.mem_singleton_self _)⟩
  | close => exact ⟨le_rfl, fun hall => by cases hall _ (List.mem_singleton_self _)⟩
  | forget => exact ⟨Nat.zero_le 1, fun _ => hdown rfl⟩

theorem close_holds : sock.close.holds = sock.holds := by
  simp [holds, Socket.close]

/-- It leaves the descriptor alone, or it closes just that one. -/
theorem Settled.closeStmt_holds (h : sock.Settled) (hk : sock.closing[k]? = some stmt) :
    (sock.closeStmt k stmt).1.holds = sock.holds ∧ (sock.closeStmt k stmt).2 = [] ∨
      (sock.closeStmt k stmt).1.holds = none ∧
        (sock.closeStmt k stmt).2 = sock.holds.toList := by
  obtain ⟨rfl, hone⟩ := h.eq_singleton hk
  obtain ⟨fd, conn, closing⟩ := sock
  simp only at hone
  subst hone
  cases stmt with
  | test | check =>
      refine .inl ?_
      rw [Socket.closeStmt]
      split <;> exact ⟨rfl, rfl⟩
  | disconnect | forget => exact .inl ⟨rfl, rfl⟩
  | close => exact .inr ⟨rfl, rfl⟩

end Socket

end Clients
end XzmjxRpc
