import Mathlib.Data.List.Basic
import TmkDcl.Lts
import TmkDcl.Capture.Gvcp

/-!
# The control socket (libcapture/src/gvcp.c)

`read_register`, `write_register` and `write_watchdog_register` send a request and then listen
on the socket. `listen_packet_ack_new` returns the first datagram of at least 12 bytes, and
`gvcp_register_ack` looks at its packet type only: neither compares the command or the id with
the request. The device may acknowledge each request late, several times or never, in any
order.
-/

namespace TmkDcl.Capture.ControlChannel

/-- The calls on a control socket, with the value before a read and the id they are given. -/
inductive Call where
  | readRegister (regAddr value packetId : BitVec 32)
  | writeRegister (regAddr value packetId : BitVec 32)
  | writeWatchdogRegister (regAddr value packetId : BitVec 32)
  deriving DecidableEq

/-- The packet that a call writes (`gvcp.c:356-396`). -/
def Call.packet : Call → GvcpPacket
  | .readRegister regAddr _ packetId => gvcpReadRegisterPacket regAddr packetId
  | .writeRegister regAddr value packetId => gvcpWriteRegisterPacket regAddr value packetId
  | .writeWatchdogRegister regAddr value packetId => gvcpWriteRegisterPacket regAddr value packetId

/-- A datagram of the device, with the number of the request that it acknowledges. -/
structure Ack where
  request : ℕ
  packet : GvcpPacket
  deriving DecidableEq

/-- A finished `read_register`: the number of its request and the value before and after. -/
structure ReadDone where
  request : ℕ
  before : BitVec 32
  after : BitVec 32
  deriving DecidableEq

/-- The socket: the requests sent, the datagrams that reached it and those that nobody
received yet, the call that runs with the number of its request, and the finished reads. -/
structure Socket where
  requests : List GvcpPacket
  delivered : List Ack
  inbox : List Ack
  running : Option (Call × ℕ)
  reads : List ReadDone

inductive Label where
  | call (c : Call)
  | deliver (a : Ack)
  | recv
  | timeout
  | error
  deriving DecidableEq

/-- The datagram acknowledges a request: its command and its id are those of the answer. -/
def Ack.answers (a : Ack) (request : GvcpPacket) : Prop :=
  a.packet.command = request.command + 1 ∧ a.packet.id = request.id

instance (a : Ack) (request : GvcpPacket) : Decidable (a.answers request) :=
  inferInstanceAs (Decidable (_ ∧ _))

/-- The end of the call that runs, with what `listen_packet_ack_new` returned. -/
def Socket.finish (s : Socket) (c : Call) (n : ℕ) (packet : Option GvcpPacket) : Socket :=
  { s with
    running := none
    reads := match c with
      | .readRegister _ value _ => s.reads ++ [⟨n, value, gvcpRegisterAck value packet⟩]
      | _ => s.reads }

/-- A datagram that the running call receives (`gvcp.c:263-283`, `:330-350`); 12 bytes are
read of it. -/
def Socket.take (s : Socket) (c : Call) (n : ℕ) (a : Ack) (inbox : List Ack) : Socket :=
  match c with
  | .writeWatchdogRegister .. => { s with inbox := inbox }
  | _ =>
    if 8 + a.packet.data.length < 8 + 4 then { s with inbox := inbox }
    else { s with inbox := inbox }.finish c n (some { a.packet with data := a.packet.data.take 4 })

def step (s : Socket) : Label → Option Socket
  | .call c =>
    if s.running = none then
      some { s with
        requests := s.requests ++ [c.packet]
        running := some (c, s.requests.length) }
    else none
  | .deliver a =>
    match s.requests[a.request]? with
    | some request =>
      if a.answers request then
        some { s with delivered := s.delivered ++ [a], inbox := s.inbox ++ [a] }
      else none
    | none => none
  | .recv =>
    match s.running, s.inbox with
    | some (c, n), a :: inbox => some (s.take c n a inbox)
    | _, _ => none
  | .timeout =>
    match s.running, s.inbox with
    | some (c, n), [] => some (s.finish c n none)
    | _, _ => none
  | .error =>
    match s.running with
    | some (c, n) => some (s.finish c n none)
    | none => none

def socket : Lts Socket Label where
  init s := s = ⟨[], [], [], none, []⟩
  step := step

/-- A read stores the value of a `READ_REG_ACK` to its own request, or nothing. -/
def ReadsMatched (s : Socket) : Prop :=
  ∀ r ∈ s.reads, r.after = r.before ∨
    ∃ a ∈ s.delivered, ∃ request, a.request = r.request ∧ s.requests[r.request]? = some request ∧
      a.packet.command = gvcpCommandReadRegAck ∧ a.packet.id = request.id ∧
      r.after = a.packet.value

/-- The number of the request of the read that runs. -/
def Socket.reading (s : Socket) : Option ℕ :=
  match s.running with
  | some (.readRegister .., n) => some n
  | _ => none

/-- A datagram that a read receives is too short, of another type than `ACK`, or answers the
request of this very read. -/
def ownAnswers (s : Socket) : Label → Prop
  | .recv => ∀ n ∈ s.reading, ∀ a ∈ s.inbox.head?,
      a.packet.data.length < 4 ∨ a.packet.packetType ≠ gvcpPacketTypeAck ∨ a.request = n
  | _ => True

instance (s : Socket) : ∀ a, Decidable (ownAnswers s a)
  | .recv => inferInstanceAs (Decidable (∀ n ∈ s.reading, ∀ a ∈ s.inbox.head?, _))
  | .call _ | .deliver _ | .timeout | .error => isTrue trivial

/-! ### The invariant -/

/-- Every datagram answers the request of its number, and a read that runs has its request
at its number. -/
structure Inv (s : Socket) : Prop where
  matched : ReadsMatched s
  inbox : ∀ a ∈ s.inbox, a ∈ s.delivered
  answers : ∀ a ∈ s.delivered, ∃ request, s.requests[a.request]? = some request ∧ a.answers request
  running : ∀ c n, s.running = some (c, n) → s.requests[n]? = some c.packet

section Step

variable {s s' : Socket} {a : Label} {c : Call} {n : ℕ}

theorem getElem?_append_some {α : Type*} {xs : List α} {i : ℕ} {x : α} (ys : List α)
    (h : xs[i]? = some x) : (xs ++ ys)[i]? = some x := by
  obtain ⟨hi, -⟩ := List.getElem?_eq_some_iff.mp h
  rw [List.getElem?_append_left hi, h]

/-- A read may end with its value as it was, or with that of an answer to its request. -/
theorem Inv.finish (h : Inv s) {packet : Option GvcpPacket}
    (hr : ∀ regAddr value packetId, c = .readRegister regAddr value packetId →
      gvcpRegisterAck value packet = value ∨
      ∃ a ∈ s.delivered, ∃ request, a.request = n ∧ s.requests[n]? = some request ∧
        a.packet.command = gvcpCommandReadRegAck ∧ a.packet.id = request.id ∧
        gvcpRegisterAck value packet = a.packet.value) :
    Inv (s.finish c n packet) := by
  refine ⟨?_, h.inbox, h.answers, fun c n hc => by cases hc⟩
  cases c with
  | readRegister regAddr value packetId =>
    intro r hm
    rcases List.mem_append.mp hm with hm | hm
    · exact h.matched r hm
    · cases List.mem_singleton.mp hm
      exact hr regAddr value packetId rfl
  | writeRegister => exact h.matched
  | writeWatchdogRegister => exact h.matched

theorem Inv.dequeue (h : Inv s) {x : Ack} {inbox : List Ack} (hi : s.inbox = x :: inbox) :
    Inv { s with inbox := inbox } :=
  ⟨h.matched, fun a ha => h.inbox a (hi ▸ List.mem_cons_of_mem _ ha), h.answers, h.running⟩

/-- What a read gets from a datagram of at least 12 bytes. -/
theorem Inv.read (h : Inv s) {x : Ack} {inbox : List Ack} {regAddr value packetId : BitVec 32}
    (hrun : s.running = some (.readRegister regAddr value packetId, n))
    (hi : s.inbox = x :: inbox) (hok : ownAnswers s .recv) (hlen : ¬ x.packet.data.length < 4) :
    gvcpRegisterAck value (some { x.packet with data := x.packet.data.take 4 }) = value ∨
    ∃ a ∈ s.delivered, ∃ request, a.request = n ∧ s.requests[n]? = some request ∧
      a.packet.command = gvcpCommandReadRegAck ∧ a.packet.id = request.id ∧
      gvcpRegisterAck value (some { x.packet with data := x.packet.data.take 4 }) =
        a.packet.value := by
  by_cases ht : x.packet.packetType = gvcpPacketTypeAck
  · right
    have hread : n ∈ s.reading := by simp [Socket.reading, hrun]
    have hhead : x ∈ s.inbox.head? := by simp [hi]
    have hown : x.request = n :=
      ((hok n hread x hhead).resolve_left hlen).resolve_left fun hne => hne ht
    have hx := h.inbox x (hi ▸ List.mem_cons_self)
    obtain ⟨request, hreq, hcmd, hid⟩ := h.answers x hx
    rw [hown] at hreq
    cases hreq.symm.trans (h.running _ _ hrun)
    refine ⟨x, hx, _, hown, hreq, hcmd, hid, ?_⟩
    rw [registerAck_ack (by exact ht)]
    simp only [GvcpPacket.value, List.take_take, Nat.min_self]
  · exact .inl (registerAck_other (by exact ht))

theorem Inv.take (h : Inv s) {x : Ack} {inbox : List Ack} (hrun : s.running = some (c, n))
    (hi : s.inbox = x :: inbox) (hok : ownAnswers s .recv) : Inv (s.take c n x inbox) := by
  have hq := h.dequeue hi
  cases c with
  | writeWatchdogRegister => exact hq
  | writeRegister regAddr value packetId =>
    simp only [Socket.take]
    split
    · exact hq
    · exact hq.finish fun _ _ _ hc => by cases hc
  | readRegister regAddr value packetId =>
    simp only [Socket.take]
    split
    · exact hq
    · rename_i hlen
      refine hq.finish fun _ _ _ hc => ?_
      cases hc
      exact h.read hrun hi hok (by omega)

theorem inv_step (h : Inv s) (hok : ownAnswers s a) (hs : step s a = some s') : Inv s' := by
  cases a with
  | call c =>
    simp only [step, Option.ite_none_right_eq_some, Option.some.injEq] at hs
    obtain ⟨-, rfl⟩ := hs
    refine ⟨fun r hr => ?_, h.inbox, fun x hx => ?_, fun c' n hc => ?_⟩
    · refine (h.matched r hr).imp id ?_
      rintro ⟨x, hx, request, hn, hreq, hrest⟩
      exact ⟨x, hx, request, hn, getElem?_append_some _ hreq, hrest⟩
    · obtain ⟨request, hreq, ha⟩ := h.answers x hx
      exact ⟨request, getElem?_append_some _ hreq, ha⟩
    · cases hc
      exact List.getElem?_concat_length
  | deliver x =>
    simp only [step] at hs
    split at hs
    · rename_i request hreq
      simp only [Option.ite_none_right_eq_some, Option.some.injEq] at hs
      obtain ⟨ha, rfl⟩ := hs
      refine ⟨fun r hr => ?_, fun y hy => ?_, fun y hy => ?_, h.running⟩
      · refine (h.matched r hr).imp id ?_
        rintro ⟨y, hy, hrest⟩
        exact ⟨y, List.mem_append_left _ hy, hrest⟩
      · exact (List.mem_append.mp hy).elim (fun hy => List.mem_append_left _ (h.inbox y hy))
          fun hy => List.mem_append_right _ hy
      · rcases List.mem_append.mp hy with hy | hy
        · exact h.answers y hy
        · cases List.mem_singleton.mp hy
          exact ⟨request, hreq, ha⟩
    · cases hs
  | recv =>
    simp only [step] at hs
    split at hs
    · rename_i c n x inbox hrun hi
      cases hs
      exact h.take hrun hi hok
    · cases hs
  | timeout =>
    simp only [step] at hs
    split at hs
    · cases hs
      exact h.finish fun _ _ _ _ => .inl rfl
    · cases hs
  | error =>
    simp only [step] at hs
    split at hs
    · cases hs
      exact h.finish fun _ _ _ _ => .inl rfl
    · cases hs

/-- As long as every acknowledgement that a read receives is one to its own request, its value
is that of the answer, or it is left as it was. -/
theorem reads_matched (h : socket.Reach ownAnswers s) : ReadsMatched s := by
  have hinv : Inv s := by
    refine h.invariant Inv (fun s h0 => ?_) fun _ _ _ _ hi hok hs => inv_step hi hok hs
    cases (h0 : s = _)
    exact ⟨fun _ hr => (List.not_mem_nil hr).elim, fun _ hx => (List.not_mem_nil hx).elim,
      fun _ hx => (List.not_mem_nil hx).elim, fun _ _ hc => nomatch hc⟩
  exact hinv.matched

/-- The acknowledgement of a request, with the value behind its header. -/
def ackOf (n : ℕ) (request : GvcpPacket) (value : Bytes) : Label :=
  .deliver ⟨n, ⟨gvcpPacketTypeAck, 0, request.command + 1, 4, request.id, value⟩⟩

/-- A read of the number of stream channels, with -1 in the variable. -/
def readChannels (packetId : BitVec 32) : Call := .readRegister 0x904 0xffffffff packetId

/-- A write of the control channel privilege. -/
def writePrivilege (packetId : BitVec 32) : Call := .writeRegister 0xa00 2 packetId

theorem reads_matched_answer : ∃ s, socket.Reach ownAnswers s ∧
    s.reads = [⟨1, 0xffffffff, 42⟩] ∧ ReadsMatched s := by
  have hreach := Lts.reach_of_guard (Lts.reach_exec (socket.guard ownAnswers) Lts.anyStep
    [.call (writePrivilege 0xf001), ackOf 0 (writePrivilege 0xf001).packet [0, 0, 0, 1], .recv,
      .call (readChannels 0xf002), ackOf 1 (readChannels 0xf002).packet [0, 0, 0, 42], .recv]
    rfl (by decide) fun _ _ _ => trivial)
  exact ⟨_, hreach, by decide, reads_matched hreach⟩

/-- A write times out, and the next read takes its acknowledgement. -/
theorem reads_matched_late : ¬ ∀ s, socket.Reach Lts.anyStep s → ReadsMatched s := by
  intro hall
  have hreach := Lts.reach_exec socket Lts.anyStep
    [.call (writePrivilege 0xf001), .timeout, ackOf 0 (writePrivilege 0xf001).packet [0, 0, 0, 1],
      .call (readChannels 0xf002), .recv] rfl (by decide) fun _ _ _ => trivial
  rcases hall _ hreach ⟨1, 0xffffffff, 1⟩ (by decide) with h | ⟨a, ha, -, -, -, hcmd, -⟩
  · exact absurd h (by decide)
  · revert a
    decide

end Step

end TmkDcl.Capture.ControlChannel
