import XzmjxRpc.Net.Address.Compare

/-!
# XzmjxRpc.Net.TcpServer

`TcpServer::bind(addrs, fails)` (`net/tcp_server.cpp`) and what it uses of
`Socket` (`net/socket.cpp`).

The kernel answers the calls made for each address as it likes.  The loop
appends to the sockets the server already has, and when an address has failed,
`clear()` takes away all of them and not only those of this call
(`bind_eq`, `bindsRight_iff`).
-/

namespace XzmjxRpc

/-- What the kernel answers to the calls that are made for one address. -/
structure Kernel where
  /-- `socket(family, type, protocol)`. -/
  socket : Int → Int → Int → Int
  /-- `bind(fd, address)`. -/
  bind : Int → Address → Int
  /-- `listen(fd, backlog)`. -/
  listen : Int → Int → Int
  /-- `getsockname(fd)`; `none` when it fails. -/
  getsockname : Int → Option Address

/-- `Socket`: the members that `bind` and `listen` use. -/
structure Socket where
  mSockFd : Int := -1
  mFamily : Int
  mType : Int
  mProtocol : Int := 0
  mLocalAddress : Option Address := none

/-- `TcpServer`: the sockets that listen. -/
structure TcpServer where
  mListenSocks : List Socket

/-! ## sockets -/

namespace Socket

/-- `TCP`. -/
def tcp : Int := 1

/-- `isVaild()`. -/
def isVaild (s : Socket) : Bool := s.mSockFd != -1

/-- `newSock()`. -/
def newSock (k : Kernel) (s : Socket) : Socket :=
  { s with mSockFd := k.socket s.mFamily s.mType s.mProtocol }

/-- `getLocalAddress()`, which looks the address up once. -/
def getLocalAddress (k : Kernel) (s : Socket) : Socket :=
  match s.mLocalAddress with
  | some _ => s
  | none => { s with mLocalAddress := k.getsockname s.mSockFd }

/-- `bind(addr)`. -/
def bind (k : Kernel) (addr : Address) (s : Socket) : Bool × Socket :=
  let s := if s.isVaild then s else s.newSock k
  if ¬ s.isVaild then (false, s)
  else if k.bind s.mSockFd addr ≠ 0 then (false, s)
  else (true, s.getLocalAddress k)

/-- `listen(backlog)`. -/
def listen (k : Kernel) (s : Socket) (backlog : Int := 5) : Bool := k.listen s.mSockFd backlog == 0

end Socket

section
variable [Machine]

/-- `getFamily()`. -/
def Address.getFamily (a : Address) : Int := (Machine.native.value 2 (a.getAddr.take 2)).toNat

/-- `CreateTCP(address)`. -/
def Socket.createTCP (address : Address) : Socket where
  mFamily := address.getFamily
  mType := tcp

/-! ## the loop -/

namespace TcpServer

/-- A round of the loop, on the server and `fails`. -/
def bindRound (k : Kernel) (addr : Address) : TcpServer × List Address → TcpServer × List Address
  | (s, fails) =>
      let (bound, sock) := (Socket.createTCP addr).bind k addr
      if ¬ bound then (s, fails ++ [addr])
      else if ¬ sock.listen k then (s, fails ++ [addr])
      else ({ s with mListenSocks := s.mListenSocks ++ [sock] }, fails)

/-- `bind(addrs, fails)`, where `k i` answers for the address number `i`: the
result, the server and `fails`. -/
def bind (k : Nat → Kernel) (s : TcpServer) (addrs fails : List Address) :
    Bool × TcpServer × List Address :=
  let (s, fails) := addrs.zipIdx.foldl (fun r p => bindRound (k p.2) p.1 r) (s, fails)
  if ¬ fails.isEmpty then (false, { s with mListenSocks := [] }, fails)
  else (true, s, fails)

/-- The socket that listens at `addr`, when neither `bind` nor `listen` fails. -/
def opened (k : Kernel) (addr : Address) : Option Socket :=
  let (bound, sock) := (Socket.createTCP addr).bind k addr
  if bound ∧ sock.listen k then some sock else none

/-- The addresses that fail, in order. -/
def failed (k : Nat → Kernel) (addrs : List Address) : List Address :=
  (addrs.zipIdx.filter fun p => (opened (k p.2) p.1).isNone).map (·.1)

/-- What a call without earlier failures is to do. -/
structure BindsRight (k : Nat → Kernel) (s : TcpServer) (addrs : List Address) : Prop where
  result : (s.bind k addrs []).1 = true ↔ failed k addrs = []
  /-- One more socket for each address. -/
  bound : (s.bind k addrs []).1 = true →
    ∃ socks, (s.bind k addrs []).2.1.mListenSocks = s.mListenSocks ++ socks ∧
      socks.map some = addrs.zipIdx.map fun p => opened (k p.2) p.1
  undone : (s.bind k addrs []).1 = false →
    (s.bind k addrs []).2.2 = failed k addrs ∧
      (s.bind k addrs []).2.1.mListenSocks = s.mListenSocks

theorem bindRound_eq (k : Kernel) (addr : Address) (s : TcpServer) (fails : List Address) :
    bindRound k addr (s, fails) =
      match opened k addr with
      | some sock => ({ s with mListenSocks := s.mListenSocks ++ [sock] }, fails)
      | none => (s, fails ++ [addr]) := by
  unfold bindRound opened
  rcases (Socket.createTCP addr).bind k addr with ⟨bound, sock⟩
  cases bound with
  | false => rfl
  | true => cases h : sock.listen k <;> simp [h]

/-- **The loop** sorts the addresses. -/
theorem foldl_bindRound (k : Nat → Kernel) (ps : List (Address × Nat)) (s : TcpServer)
    (fails : List Address) :
    ps.foldl (fun r p => bindRound (k p.2) p.1 r) (s, fails) =
      ({ s with mListenSocks := s.mListenSocks ++ ps.filterMap fun p => opened (k p.2) p.1 },
        fails ++ (ps.filter fun p => (opened (k p.2) p.1).isNone).map (·.1)) := by
  induction ps generalizing s fails with
  | nil => simp
  | cons p ps ih =>
      rw [List.foldl_cons, bindRound_eq]
      cases h : opened (k p.2) p.1 with
      | none => simp [ih, h]
      | some sock => simp [ih, h]

/-- A call either keeps every socket or drops every socket. -/
theorem bind_eq (k : Nat → Kernel) (s : TcpServer) (addrs : List Address) :
    s.bind k addrs [] =
      if failed k addrs = [] then
        (true, { s with mListenSocks :=
          s.mListenSocks ++ addrs.zipIdx.filterMap fun p => opened (k p.2) p.1 }, [])
      else (false, { s with mListenSocks := [] }, failed k addrs) := by
  rw [bind, foldl_bindRound, List.nil_append]
  show (if ¬ (failed k addrs).isEmpty then (false, _, failed k addrs)
    else (true, _, failed k addrs)) = _
  by_cases h : failed k addrs = []
  · simp only [h, List.isEmpty_nil, not_true_eq_false, if_false, if_true]
  · simp only [List.isEmpty_iff, h, not_false_eq_true, if_true, if_false]

/-- When no address fails, there is a socket for each. -/
theorem map_some_opened {k : Nat → Kernel} {addrs : List Address} (h : failed k addrs = []) :
    (addrs.zipIdx.filterMap fun p => opened (k p.2) p.1).map some =
      addrs.zipIdx.map fun p => opened (k p.2) p.1 := by
  rw [failed, List.map_eq_nil_iff, List.filter_eq_nil_iff] at h
  generalize addrs.zipIdx = ps at h
  induction ps with
  | nil => rfl
  | cons p ps ih =>
      have hp := h p List.mem_cons_self
      cases ho : opened (k p.2) p.1 with
      | none => simp [ho] at hp
      | some sock =>
          rw [List.map_cons, ho, ← ih fun q hq => h q (List.mem_cons_of_mem _ hq),
            ← List.map_cons]
          exact congrArg _ (List.filterMap_cons_some ho)

/-- **Binding** does what it is to do exactly when no address fails or the
server had no socket. -/
theorem bindsRight_iff (k : Nat → Kernel) (s : TcpServer) (addrs : List Address) :
    BindsRight k s addrs ↔ failed k addrs = [] ∨ s.mListenSocks = [] := by
  constructor
  · intro h
    by_cases hfail : failed k addrs = []
    · exact Or.inl hfail
    · have hdropped : s.bind k addrs [] =
          (false, { s with mListenSocks := [] }, failed k addrs) := by
        rw [bind_eq, if_neg hfail]
      have hkept := (h.undone (by rw [hdropped])).2
      rw [hdropped] at hkept
      exact Or.inr hkept.symm
  · intro h
    by_cases hfail : failed k addrs = []
    · have hbound := bind_eq k s addrs
      rw [if_pos hfail] at hbound
      refine ⟨by simp [hbound, hfail], fun _ => ?_, fun hfalse => ?_⟩
      · exact ⟨_, by rw [hbound], map_some_opened hfail⟩
      · rw [hbound] at hfalse
        cases hfalse
    · have hnone : s.mListenSocks = [] := h.resolve_left hfail
      have hdropped := bind_eq k s addrs
      rw [if_neg hfail] at hdropped
      refine ⟨by simp [hdropped, hfail], fun htrue => ?_, fun _ => ?_⟩
      · rw [hdropped] at htrue
        cases htrue
      · rw [hdropped, hnone]
        exact ⟨rfl, rfl⟩

end TcpServer

end

/-- A server that listens on one address, another address that is in use. -/
theorem TcpServer.not_bindsRight : letI := x86_64
    ¬ TcpServer.BindsRight
      (fun _ => {
        socket := fun _ _ _ => 4
        bind := fun _ _ => -1
        listen := fun _ _ => 0
        getsockname := fun _ => none })
      { mListenSocks := [{ mSockFd := 3, mFamily := 2, mType := Socket.tcp }] }
      [.ipv4 ⟨List.replicate 16 0, List.length_replicate⟩] := by
  intro h
  have hkept := (@TcpServer.BindsRight.undone x86_64 _ _ _ h (by decide)).2
  have hlen := congrArg List.length hkept
  revert hlen
  decide

end XzmjxRpc
