import Mathlib.Data.List.Chain
import TmkDcl.Capture.Gvcp

/-!
# A control session (gige_camera_ops.c, gvcp.c, gige_camera.c, source.c)

`next_packet_id` steps the variable that it is given. Each of `gvcp_init`, the reader of the
tick frequency and the operations of a camera gets its id by value and steps its own copy from
there, while `last_gvcp_packet_id` of the camera goes on by one for each of them. So the ids
that one function used are used again by the next ones.
-/

namespace TmkDcl.Capture

/-- A register access of an operation; each takes `next_packet_id(packet_id)`. `writeValue`
writes what the last read left in `value`, `writeUnless` writes if `value` is another. -/
inductive RegisterOp where
  | read (reg : BitVec 32)
  | write (reg value : BitVec 32)
  | writeValue (reg : BitVec 32)
  | writeUnless (reg value : BitVec 32)

/-- The locals `packet_id` and `value` of an operation. -/
structure Locals where
  packetId : BitVec 32
  value : BitVec 32

/-- What the registers answer: for the number of a request, the value that its
acknowledgement stores, if there is one that does. -/
abbrev Answers := ℕ → Option (BitVec 32)

/-- An access, with the requests sent so far. -/
def RegisterOp.exec (answers : Answers) (sent : List GvcpPacket) (l : Locals) :
    RegisterOp → List GvcpPacket × Locals
  | .read reg =>
    let (packetId, id) := nextPacketId l.packetId
    (sent ++ [gvcpReadRegisterPacket reg id], ⟨packetId, (answers sent.length).getD l.value⟩)
  | .write reg value =>
    let (packetId, id) := nextPacketId l.packetId
    (sent ++ [gvcpWriteRegisterPacket reg value id], ⟨packetId, l.value⟩)
  | .writeValue reg =>
    let (packetId, id) := nextPacketId l.packetId
    (sent ++ [gvcpWriteRegisterPacket reg l.value id], ⟨packetId, l.value⟩)
  | .writeUnless reg value =>
    if l.value = value then (sent, l)
    else
      let (packetId, id) := nextPacketId l.packetId
      (sent ++ [gvcpWriteRegisterPacket reg value id], ⟨packetId, l.value⟩)

/-- The accesses of a function one after the other. -/
def execAll (answers : Answers) : List RegisterOp → List GvcpPacket → Locals → List GvcpPacket × Locals
  | [], sent, l => (sent, l)
  | op :: ops, sent, l =>
    let (sent, l) := op.exec answers sent l
    execAll answers ops sent l

/-- An operation of a camera: `value` starts at -1. -/
def runOp (answers : Answers) (ops : List RegisterOp) (sent : List GvcpPacket)
    (packetId : BitVec 32) : List GvcpPacket :=
  (execAll answers ops sent ⟨packetId, -1⟩).1

/-! ### The operations of gige_camera_ops.c -/

def controlChannelPrivilege : BitVec 32 := 0xa00
def streamChannelSourcePort : BitVec 32 := 0xd1c
def streamChannel0Port : BitVec 32 := 0xd00
def streamChannel0PacketSize : BitVec 32 := 0xd04
def streamChannel0IpAddress : BitVec 32 := 0xd18

/-- `struct gige_camera_ops`. -/
structure GigeCameraOps where
  watchdog : List RegisterOp
  start : List RegisterOp
  stop : List RegisterOp

/-- `gige_camera_ops_no` (`gige_camera_ops.c:14-36`). -/
def gigeCameraOpsNo : GigeCameraOps := ⟨[], [], []⟩

/-- `gige_camera_ops_arvfake` (`gige_camera_ops.c:39-59`). -/
def gigeCameraOpsArvfake : GigeCameraOps where
  watchdog := [.read controlChannelPrivilege, .writeUnless controlChannelPrivilege 0x02]
  start := [.write controlChannelPrivilege 0x02, .write 0x00000124 0x01]
  stop := [.write controlChannelPrivilege 0x02, .write 0x00000124 0x00]

/-- `gige_camera_ops_flir_color` (`gige_camera_ops.c:62-105`). -/
def gigeCameraOpsFlirColor : GigeCameraOps where
  watchdog := [.read controlChannelPrivilege, .writeUnless controlChannelPrivilege 0x02,
    .write 0xF0F04030 0x80000000, .read streamChannelSourcePort]
  start := [.write controlChannelPrivilege 0x02, .write 0xF0F00A08 0x00000000,
    .read 0xF0F00A0C, .writeValue 0xF0F00A0C, .write 0xF0F00A08 0x00000000,
    .read 0xF0F00960, .read 0xF0F00964, .read 0xF0F00530, .read 0xF0F00830,
    .write 0xF0F00830 0x80000000, .read 0xF0F0083C, .writeValue 0xF0F0083C,
    .read 0xF0F0053C, .read 0xF0F0083C, .write 0xF0F0083C 0xC2000610,
    .write 0xF0F00968 0x41200000, .read 0xF0F05410, .read 0xF0F04050, .read 0xF0F04054,
    .read streamChannel0Port, .read streamChannelSourcePort, .write 0xF0F04030 0x80000000]
  stop := [.write controlChannelPrivilege 0x02, .read 0xF0F00614, .write 0xF0F00614 0x00000000]

/-- `gige_camera_ops_flir_color2` (`gige_camera_ops.c:108-155`). -/
def gigeCameraOpsFlirColor2 : GigeCameraOps where
  watchdog := [.write controlChannelPrivilege 0x02]
  start := [.write controlChannelPrivilege 0x02, .write 0x00081044 0x00000000,
    .write 0x00081024 0x00000000, .read 0x00081084, .read 0x00081084,
    .write 0x00081044 0x00000000, .write 0x00081024 0x00000000, .read 0x000C1108,
    .read 0x000C1148, .read 0x000C8C40, .read 0x000C8C20, .read 0x000C8C00,
    .write 0x000C8424 0x00000000, .write 0x000C1124 0x00000001, .read 0x20002008,
    .read streamChannel0Port, .read streamChannelSourcePort,
    .write controlChannelPrivilege 0x02, .write 0x000C0004 0x00000001]
  stop := [.write controlChannelPrivilege 0x02, .read 0x000C0004, .write 0x000C0024 0x00000001]

/-- `gige_camera_ops_lucid_polar` (`gige_camera_ops.c:158-182`). -/
def gigeCameraOpsLucidPolar : GigeCameraOps where
  watchdog := [.write controlChannelPrivilege 0x02]
  start := [.write controlChannelPrivilege 0x02, .write 0x10300004 0x01]
  stop := [.read controlChannelPrivilege, .write 0x10300004 0x00]

/-- `gige_camera_ops_flir_polar` (`gige_camera_ops.c:185-233`). -/
def gigeCameraOpsFlirPolar : GigeCameraOps where
  watchdog := [.read controlChannelPrivilege]
  start := [.write controlChannelPrivilege 0x02, .write 0x00081044 0x00, .write 0x00081024 0x00,
    .write 0x00081084 0xc8, .write 0x00081064 0xc8, .write controlChannelPrivilege 0x02,
    .read streamChannelSourcePort, .read streamChannel0PacketSize, .write 0x00004050 0,
    .write 0x00004054 0, .write controlChannelPrivilege 0x02, .write 0xc00c8 0x00,
    .write 0xc1104 0x01, .write 0xc0004 0x01]
  stop := [.write controlChannelPrivilege 0x02, .write 0xc1124 0x00]

/-- The cameras that there are operations for (`gige_camera_ops.c:240-246`). -/
inductive CameraType where
  | no
  | arvfake
  | flirColor
  | flirColor2
  | flirPolar
  | lucidPolar
  deriving DecidableEq

def CameraType.ops : CameraType → GigeCameraOps
  | .no => gigeCameraOpsNo
  | .arvfake => gigeCameraOpsArvfake
  | .flirColor => gigeCameraOpsFlirColor
  | .flirColor2 => gigeCameraOpsFlirColor2
  | .flirPolar => gigeCameraOpsFlirPolar
  | .lucidPolar => gigeCameraOpsLucidPolar

/-! ### A session -/

/-- `gvcp_init` (`gvcp.c:416-442`): the requests and the packet size it returns, for the
address of the data socket. -/
def gvcpInit (answers : Answers) (ip port packetId : BitVec 32) : List GvcpPacket × BitVec 32 :=
  -- the first request takes the id itself
  let sent := [gvcpReadRegisterPacket 0x904 packetId]
  let value := (answers 0).getD (-1)
  let (sent, l) := execAll answers [.read 0x934, .write controlChannelPrivilege 0x02,
    .write streamChannel0IpAddress ip, .write streamChannel0Port port] sent ⟨packetId, value⟩
  let (sent, l) := execAll answers [.read streamChannel0PacketSize] sent ⟨l.packetId, 0⟩
  let packetSize := l.value
  if 4096 < packetSize then
    let (sent, _) := execAll answers [.write streamChannel0PacketSize 4096] sent l
    (sent, 4096)
  else (sent, packetSize)

/-- `gvcp_get_timestamp_tick_frequency` (`gvcp.c:399-407`). -/
def gvcpGetTimestampTickFrequency : List RegisterOp := [.read 0x93c, .read 0x940]

/-- Some rounds of the watchdog (`source.c:109-116`): the requests and `last_gvcp_packet_id`. -/
def watchdogRounds (answers : Answers) (ops : List RegisterOp) :
    ℕ → List GvcpPacket → BitVec 32 → List GvcpPacket × BitVec 32
  | 0, sent, last => (sent, last)
  | rounds + 1, sent, last =>
    let (last, id) := nextPacketId last
    watchdogRounds answers ops rounds (runOp answers ops sent id) last

/-- The requests of a session: `gige_camera_init` (`gige_camera.c:310-402`), and if it returns a
camera the start, the rounds of the watchdog and the stop (`source.c:101-120`). -/
def session (cam : CameraType) (ip port : BitVec 32) (rounds : ℕ) (answers : Answers) :
    List GvcpPacket :=
  let last : BitVec 32 := 0xf000
  let (last, id) := nextPacketId last
  let (sent, packetSize) := gvcpInit answers ip port id
  if 0 < packetSize then
    let (last, id) := nextPacketId last
    let sent := runOp answers gvcpGetTimestampTickFrequency sent id
    let (last, id) := nextPacketId last
    let sent := runOp answers cam.ops.start sent id
    let (sent, last) := watchdogRounds answers cam.ops.watchdog rounds sent last
    let (_, id) := nextPacketId last
    runOp answers cam.ops.stop sent id
  else sent

/-- No two successive requests have one id, and all ids are in `0xf000..0xffff`. -/
def IdsFresh (sent : List GvcpPacket) : Prop :=
  (sent.map GvcpPacket.id).IsChain (· ≠ ·) ∧ ∀ packet ∈ sent, 0xf000 ≤ packet.id

/-! ### The ids of a session -/

section Session

variable {cam : CameraType} {ip port packetId : BitVec 32} {rounds : ℕ} {answers : Answers}
  {sent : List GvcpPacket} {l : Locals} {ops : List RegisterOp}

/-- The id of a request after `next_packet_id`, on the wire. -/
def wireId (packetId : BitVec 32) : BitVec 16 := (nextPacketId packetId).2.setWidth 16

theorem wireId_range (packetId : BitVec 32) : 0xf000 ≤ wireId packetId := by
  have hand : ((packetId + 1) &&& 0xfff).toNat < 2 ^ 16 := by
    rw [BitVec.toNat_and]
    exact Nat.lt_of_le_of_lt Nat.and_le_right (by decide)
  have hor : (0xf000#32 ||| ((packetId + 1) &&& 0xfff)).toNat < 2 ^ 16 := by
    rw [BitVec.toNat_or]
    exact Nat.or_lt_two_pow (by decide) hand
  have hid : (wireId packetId).toNat = 0xf000 ||| ((packetId + 1) &&& 0xfff).toNat := by
    rw [BitVec.toNat_or] at hor
    rw [wireId, BitVec.toNat_setWidth, nextPacketId, BitVec.toNat_or]
    exact Nat.mod_eq_of_lt hor
  rw [BitVec.le_def, hid]
  exact Nat.left_le_or

/-- More requests, each with an id of `next_packet_id`. -/
def Extends (sent sent' : List GvcpPacket) : Prop :=
  ∃ more, sent' = sent ++ more ∧ ∀ packet ∈ more, ∃ x, packet.id = wireId x

theorem Extends.refl (sent : List GvcpPacket) : Extends sent sent :=
  ⟨[], (List.append_nil _).symm, fun _ hp => (List.not_mem_nil hp).elim⟩

theorem Extends.trans {sent' sent'' : List GvcpPacket} (h : Extends sent sent')
    (h' : Extends sent' sent'') : Extends sent sent'' := by
  obtain ⟨m, rfl, hm⟩ := h
  obtain ⟨m', rfl, hm'⟩ := h'
  exact ⟨m ++ m', List.append_assoc .., fun p hp => (List.mem_append.mp hp).elim (hm p) (hm' p)⟩

theorem extends_concat {packet : GvcpPacket} {x : BitVec 32} (h : packet.id = wireId x) :
    Extends sent (sent ++ [packet]) :=
  ⟨[packet], rfl, fun _ hp => ⟨x, List.mem_singleton.mp hp ▸ h⟩⟩

theorem exec_extends (op : RegisterOp) : Extends sent (op.exec answers sent l).1 := by
  cases op with
  | read => exact extends_concat rfl
  | write => exact extends_concat rfl
  | writeValue => exact extends_concat rfl
  | writeUnless =>
    simp only [RegisterOp.exec]
    split
    · exact .refl _
    · exact extends_concat rfl

theorem execAll_extends : Extends sent (execAll answers ops sent l).1 := by
  induction ops generalizing sent l with
  | nil => exact .refl _
  | cons op ops ih => exact (exec_extends op).trans ih

theorem watchdogRounds_extends (last : BitVec 32) :
    Extends sent (watchdogRounds answers ops rounds sent last).1 := by
  induction rounds generalizing sent last with
  | zero => exact .refl _
  | succ rounds ih => exact (execAll_extends (l := ⟨_, -1⟩)).trans (ih _)

theorem watchdogRounds_nil (last : BitVec 32) :
    (watchdogRounds answers [] rounds sent last).1 = sent := by
  induction rounds generalizing last with
  | zero => rfl
  | succ rounds ih => exact ih _

/-- The ids of `gvcp_init`; the last request is made if the camera's packet size is too big. -/
theorem gvcpInit_ids : (gvcpInit answers ip port (nextPacketId 0xf000).2).1.map GvcpPacket.id =
      [0xf001, 0xf002, 0xf003, 0xf004, 0xf005, 0xf006] ∨
    (gvcpInit answers ip port (nextPacketId 0xf000).2).1.map GvcpPacket.id =
      [0xf001, 0xf002, 0xf003, 0xf004, 0xf005, 0xf006, 0xf007] := by
  simp only [gvcpInit]
  split
  · right
    simp only [execAll, RegisterOp.exec]
    rfl
  · left
    simp only [execAll, RegisterOp.exec]
    rfl

/-- Every camera but `no` starts with a write of the control channel privilege. -/
theorem start_privilege (h : cam ≠ .no) :
    ∃ ops, cam.ops.start = .write controlChannelPrivilege 0x02 :: ops := by
  cases cam with
  | no => exact absurd rfl h
  | arvfake | flirColor | flirColor2 | flirPolar | lucidPolar => exact ⟨_, rfl⟩

/-- The requests up to the start: the reader of the tick frequency ends with the id
that the start begins with. -/
theorem session_tick (hsize : 0 < (gvcpInit answers ip port (nextPacketId 0xf000).2).2) :
    ∃ sent : List GvcpPacket, (gvcpInit answers ip port (nextPacketId 0xf000).2).1 = sent ∧
      Extends (runOp answers cam.ops.start
          (sent ++ [gvcpReadRegisterPacket 0x93c 0xf003, gvcpReadRegisterPacket 0x940 0xf004]) 0xf003)
        (session cam ip port rounds answers) := by
  refine ⟨_, rfl, ?_⟩
  simp only [session]
  rw [if_pos hsize]
  refine Extends.trans ?_ execAll_extends
  have hs : runOp answers gvcpGetTimestampTickFrequency
      (gvcpInit answers ip port (nextPacketId 0xf000).2).1 (nextPacketId 0xf001).2 =
      (gvcpInit answers ip port (nextPacketId 0xf000).2).1 ++
        [gvcpReadRegisterPacket 0x93c 0xf003, gvcpReadRegisterPacket 0x940 0xf004] := by
    simp only [runOp, execAll, gvcpGetTimestampTickFrequency, RegisterOp.exec, List.append_assoc]
    rfl
  exact hs ▸ watchdogRounds_extends _

theorem gvcpInit_size : 0 < (gvcpInit answers ip port (nextPacketId 0xf000).2).2 ↔
    (answers 5).getD 0 ≠ 0 := by
  have hv : ∀ v : BitVec 32, 0 < (if 4096 < v then 4096 else v) ↔ v ≠ 0 := by
    intro v
    split
    · rename_i hlt
      refine ⟨fun _ he => ?_, fun _ => by decide⟩
      rw [he] at hlt
      exact absurd hlt (by decide)
    · rw [BitVec.lt_def, ne_eq, ← BitVec.toNat_inj]
      exact Nat.pos_iff_ne_zero
  rw [← hv]
  simp only [gvcpInit]
  split
  · rename_i hlt
    rw [if_pos (by exact hlt)]
  · rename_i hle
    rw [if_neg (by exact hle)]
    rfl

theorem gvcpInit_range : ∀ packet ∈ (gvcpInit answers ip port (nextPacketId 0xf000).2).1,
    0xf000 ≤ packet.id := by
  have six : ([0xf001, 0xf002, 0xf003, 0xf004, 0xf005, 0xf006] : List (BitVec 16)).all
      (0xf000 ≤ ·) := by
    decide
  have seven : ([0xf001, 0xf002, 0xf003, 0xf004, 0xf005, 0xf006, 0xf007] : List (BitVec 16)).all
      (0xf000 ≤ ·) := by
    decide
  intro packet hp
  have hmem := List.mem_map_of_mem (f := GvcpPacket.id) hp
  rcases @gvcpInit_ids ip port answers with h | h
  · exact of_decide_eq_true (List.all_eq_true.mp six _ (h ▸ hmem))
  · exact of_decide_eq_true (List.all_eq_true.mp seven _ (h ▸ hmem))

theorem Extends.range {sent' : List GvcpPacket} (h : Extends sent sent')
    (hr : ∀ packet ∈ sent, 0xf000 ≤ packet.id) : ∀ packet ∈ sent', 0xf000 ≤ packet.id := by
  obtain ⟨more, rfl, hm⟩ := h
  intro packet hp
  rcases List.mem_append.mp hp with hp | hp
  · exact hr packet hp
  · obtain ⟨x, hx⟩ := hm packet hp
    exact hx ▸ wireId_range x

theorem session_extends : Extends (gvcpInit answers ip port (nextPacketId 0xf000).2).1
    (session cam ip port rounds answers) := by
  simp only [session]
  split
  · refine Extends.trans ?_ execAll_extends
    refine Extends.trans ?_ (watchdogRounds_extends _)
    refine Extends.trans ?_ execAll_extends
    exact execAll_extends
  · exact .refl _

theorem session_no_ids (hsize : 0 < (gvcpInit answers ip port (nextPacketId 0xf000).2).2) :
    (session .no ip port rounds answers).map GvcpPacket.id =
      (gvcpInit answers ip port (nextPacketId 0xf000).2).1.map GvcpPacket.id ++
        [0xf003, 0xf004] := by
  simp only [session]
  rw [if_pos hsize]
  simp only [CameraType.ops, gigeCameraOpsNo, runOp, execAll, watchdogRounds_nil,
    gvcpGetTimestampTickFrequency, RegisterOp.exec, List.map_append, List.append_assoc]
  rfl

/-- The start repeats the id of the request before it. -/
theorem start_collides (h : cam ≠ .no) {a b : GvcpPacket} (hb : b.id = 0xf004) :
    ∃ pre x y post, runOp answers cam.ops.start (sent ++ [a, b]) 0xf003 =
      pre ++ x :: y :: post ∧ x.id = y.id := by
  obtain ⟨ops, hops⟩ := start_privilege h
  rw [hops]
  obtain ⟨more, hmore, -⟩ := @execAll_extends answers
    (sent ++ [a, b] ++ [gvcpWriteRegisterPacket controlChannelPrivilege 0x02 0xf004])
    ⟨0xf004, -1⟩ ops
  refine ⟨sent ++ [a], b, gvcpWriteRegisterPacket controlChannelPrivilege 0x02 0xf004, more,
    Eq.trans hmore ?_, hb⟩
  simp only [List.append_assoc, List.cons_append, List.nil_append]

/-- The ids of a session are fresh exactly if nothing is sent after `gige_camera_init`: there
are no operations of the camera, or it answered no packet size. -/
theorem session_ids : IdsFresh (session cam ip port rounds answers) ↔
    cam = .no ∨ (answers 5).getD 0 = 0 := by
  constructor
  · rintro ⟨hchain, -⟩
    by_contra hcond
    obtain ⟨hcam, hanswer⟩ := not_or.mp hcond
    have hsize : 0 < (gvcpInit answers ip port (nextPacketId 0xf000).2).2 := gvcpInit_size.mpr hanswer
    obtain ⟨sent, -, hext⟩ := @session_tick cam ip port rounds answers hsize
    obtain ⟨pre, x, y, post, hrun, hxy⟩ := @start_collides cam answers sent hcam
      (gvcpReadRegisterPacket 0x93c 0xf003) (gvcpReadRegisterPacket 0x940 0xf004) rfl
    obtain ⟨more, hsession, -⟩ := hext
    rw [hsession, hrun, List.append_assoc, List.map_append, List.cons_append, List.cons_append,
      List.map_cons, List.map_cons, List.isChain_append_cons_cons] at hchain
    exact hchain.2.1 hxy
  · intro hcond
    refine ⟨?_, session_extends.range gvcpInit_range⟩
    by_cases hsize : 0 < (gvcpInit answers ip port (nextPacketId 0xf000).2).2
    · have hno : cam = .no := hcond.resolve_right (gvcpInit_size.mp hsize)
      rw [hno, session_no_ids hsize]
      rcases @gvcpInit_ids ip port answers with h | h
      all_goals
        rw [h]
        decide
    · have hinit : session cam ip port rounds answers =
          (gvcpInit answers ip port (nextPacketId 0xf000).2).1 := by
        simp only [session]
        exact if_neg hsize
      rw [hinit]
      rcases @gvcpInit_ids ip port answers with h | h
      all_goals
        rw [h]
        decide

/-- The camera of Aravis with a packet size of 1500, started and stopped. -/
theorem session_ids_started :
    ¬ IdsFresh (session .arvfake 0x0a000001 50000 0 (fun k => if k = 5 then some 1500 else none)) := by
  rintro ⟨hchain, -⟩
  revert hchain
  decide

end Session

end TmkDcl.Capture
