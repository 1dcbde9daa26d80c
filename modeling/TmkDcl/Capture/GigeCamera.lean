import Mathlib.Algebra.BigOperators.Group.List.Basic
import Mathlib.Algebra.GroupWithZero.Nat
import Mathlib.Data.List.Nodup
import Mathlib.Data.List.Perm.Subperm
import TmkDcl.Capture.Gvsp

/-!
# The stream of a camera (libcapture/src/gige_camera.c)

`camera_gvsp_thread` appends each data block to `cam->iframe` as it comes and hands the frame
over when a packet with another frame id arrives. `n_packets` of a frame stays 0, so that its
duplicate and continuity checks never see a packet.
-/

namespace TmkDcl.Capture.GigeCamera

/-- `MAX_FRAME_SIZE` (`iframe.h:9`). -/
def maxFrameSize : ℕ := 120000000

/-- What the thread reads of `struct frame_data` (`gige_camera.c:33-57`); an entry of
`packetData` is the `received` of a packet. -/
structure FrameData where
  isStarted : Bool
  errorPacketsReceived : ℕ
  nPackets : ℕ
  lastValidPacket : BitVec 32
  packetData : List Bool
  deriving DecidableEq

/-- `struct iframe_data` (`iframe.h:11-16`) with `buffer` up to `buffer_size`. -/
structure IframeData where
  frameId : ℕ
  buffer : Bytes
  deriving DecidableEq

/-- The thread with a packet buffer of `packetSize` bytes and the iframes that it passed to
`new_frame_action`. Nothing is said of what follows once a block ran over `iframe.buffer`. -/
structure Thread (packetSize : BitVec 32) where
  packet : Bytes
  packet_length : packet.length = packetSize.toNat
  lastFrameId : ℕ
  frame : FrameData
  buffer : Bytes
  buffer_le : buffer.length ≤ maxFrameSize
  handed : List IframeData
  overrun : Bool
  nReceived : ℕ
  nError : ℕ
  nIgnored : ℕ

/-- The size of the packet buffer of a camera (`gige_camera.c:101`). -/
def gvspBufferSize (packetSize : BitVec 32) : BitVec 32 := packetSize - ipHeaderSize - udpHeaderSize

variable {packetSize : BitVec 32}

/-- The loop over `packet_data` (`gige_camera.c:190-193`): where it ends. -/
def firstMissing (packetData : List Bool) (nPackets i : ℕ) : ℕ :=
  ((List.range' i (nPackets - i)).find? (!packetData.getD · false)).getD (max i nPackets)

/-- The bookkeeping of a packet (`gige_camera.c:186-193`). -/
def FrameData.track (frame : FrameData) (packetId : ℕ) : FrameData :=
  let packetData := if packetId < frame.nPackets then frame.packetData.set packetId true
    else frame.packetData
  let i := firstMissing packetData frame.nPackets (frame.lastValidPacket + 1).toNat
  { frame with packetData, lastValidPacket := BitVec.ofNat 32 i - 1 }

/-- A packet with another frame id ends a frame and begins one (`gige_camera.c:159-175`). -/
def Thread.nextFrame (st : Thread packetSize) : Thread packetSize :=
  let frameId := gvspPacketGetFrameId st.packet
  if frameId ≠ st.lastFrameId then
    { st with
      handed := if st.frame.isStarted then st.handed ++ [⟨st.lastFrameId, st.buffer⟩] else st.handed
      buffer := []
      buffer_le := Nat.zero_le _
      frame := { st.frame with
        isStarted := true, lastValidPacket := -1, nPackets := 0, errorPacketsReceived := 0 }
      lastFrameId := frameId }
  else st

theorem block_le {buffer data : Bytes} {size : ℕ} (h : buffer.length + size ≤ maxFrameSize) :
    (buffer ++ data.take size).length ≤ maxFrameSize := by
  rw [List.length_append, List.length_take]
  omega

/-- The `memcpy` of a data block (`gige_camera.c:231-233`). -/
def Thread.copyBlock (st : Thread packetSize) : Thread packetSize :=
  let size := gvspPacketGetDataSize st.packet packetSize.toNat
  if h : st.buffer.length + size ≤ maxFrameSize then
    { st with
      buffer := st.buffer ++ (gvspPacketGetData st.packet).take size
      buffer_le := block_le h }
  else { st with overrun := true }

/-- What becomes of a packet of the frame (`gige_camera.c:177-259`). -/
def Thread.addPacket (st : Thread packetSize) : Thread packetSize :=
  let packetId := gvspPacketGetPacketId st.packet
  if st.frame.isStarted then
    if gvspPacketTypeIsError (gvspPacketGetPacketType st.packet) then
      { st with
        nError := st.nError + 1
        frame := { st.frame with errorPacketsReceived := st.frame.errorPacketsReceived + 1 } }
    else if packetId < st.frame.nPackets ∧ st.frame.packetData.getD packetId false then st
    else
      let contentType := gvspPacketGetContentType st.packet
      let st := { st with frame := st.frame.track packetId }
      if contentType = gvspContentTypeDataBlock then st.copyBlock
      else if contentType = gvspContentTypeDataLeader ∨ contentType = gvspContentTypeDataTrailer then st
      else { st with nIgnored := st.nIgnored + 1 }
  else { st with nIgnored := st.nIgnored + 1 }

/-- The packet buffer after `recvfrom` (`gige_camera.c:126-147`). -/
def Thread.recv (st : Thread packetSize) (datagram : Bytes) : Thread packetSize :=
  { st with
    packet := recvfrom st.packet datagram
    packet_length := recvfrom_length.trans st.packet_length
    nReceived := st.nReceived + 1 }

/-- A round of the loop that receives a datagram (`gige_camera.c:104-261`). -/
def Thread.receive (st : Thread packetSize) (datagram : Bytes) : Thread packetSize :=
  if st.overrun then st else (st.recv datagram).nextFrame.addPacket

def Thread.run (st : Thread packetSize) (datagrams : List Bytes) : Thread packetSize :=
  datagrams.foldl Thread.receive st

/-- The thread before its first packet, with what `malloc` gave as the packet buffer. -/
def start (packet : Bytes) (h : packet.length = packetSize.toNat) : Thread packetSize where
  packet
  packet_length := h
  lastFrameId := 0
  frame := ⟨false, 0, 0, 0, []⟩
  buffer := []
  buffer_le := Nat.zero_le _
  handed := []
  overrun := false
  nReceived := 0
  nError := 0
  nIgnored := 0

/-! ### What a packet adds -/

/-- The packet is taken as a data block. -/
def isDataBlock (packet : Bytes) : Bool :=
  !gvspPacketTypeIsError (gvspPacketGetPacketType packet) &&
    gvspPacketGetContentType packet == gvspContentTypeDataBlock

/-- What the packet in the buffer adds to the iframe. -/
def added (packet : Bytes) : Bytes :=
  if isDataBlock packet then gvspPacketGetData packet else []

/-- The thread receives the frame `frameId`, of which the blocks so far are `buffer`. -/
structure Holds (st : Thread packetSize) (frameId : ℕ) (handed : List IframeData)
    (buffer : Bytes) : Prop where
  last : st.lastFrameId = frameId
  isStarted : st.frame.isStarted = true
  nPackets : st.frame.nPackets = 0
  handed : st.handed = handed
  overrun : st.overrun = decide (maxFrameSize < buffer.length)
  buffer : buffer.length ≤ maxFrameSize → st.buffer = buffer

/-- The frame that the thread ends when it begins another. -/
def Thread.ended (st : Thread packetSize) : List IframeData :=
  if st.frame.isStarted then [⟨st.lastFrameId, st.buffer⟩] else []

section Step

variable {st : Thread packetSize} {frameId : ℕ} {handed : List IframeData} {buffer : Bytes}
  {datagram : Bytes} {datagrams : List Bytes}

theorem copyBlock_holds (h : Holds st frameId handed st.buffer)
    (hsize : gvspHeaderSize st.packet ≤ packetSize.toNat) :
    Holds st.copyBlock frameId handed (st.buffer ++ gvspPacketGetData st.packet) := by
  have hdata : (gvspPacketGetData st.packet).length = packetSize.toNat - gvspHeaderSize st.packet := by
    rw [gvspPacketGetData, List.length_drop, st.packet_length]
  have hcopy := dataSize_eq hsize packetSize.isLt
  have hlen : (st.buffer ++ gvspPacketGetData st.packet).length = _ := List.length_append
  simp only [Thread.copyBlock]
  split
  · rename_i hfits
    refine ⟨h.last, h.isStarted, h.nPackets, h.handed, ?_, fun _ => ?_⟩
    · rw [show st.overrun = _ from h.overrun, decide_eq_decide]
      have := st.buffer_le
      omega
    · show st.buffer ++ _ = _
      rw [hcopy, ← hdata, List.take_length]
  · rename_i hover
    refine ⟨h.last, h.isStarted, h.nPackets, h.handed, ?_, fun hle => ?_⟩
    · exact (decide_eq_true (by omega)).symm
    · omega

/-- A packet of a started frame: `n_packets` is 0, so it counts as a new one. -/
theorem addPacket_holds (h : Holds st frameId handed st.buffer)
    (hsize : isDataBlock st.packet = true → gvspHeaderSize st.packet ≤ packetSize.toNat) :
    Holds st.addPacket frameId handed (st.buffer ++ added st.packet) := by
  simp only [Thread.addPacket]
  rw [if_pos h.isStarted]
  split
  · rename_i herror
    have hadded : added st.packet = [] := by simp [added, isDataBlock, herror]
    rw [hadded, List.append_nil]
    exact ⟨h.last, h.isStarted, h.nPackets, h.handed, h.overrun, h.buffer⟩
  · rename_i herror
    have hfresh : ¬ (gvspPacketGetPacketId st.packet < st.frame.nPackets ∧
        st.frame.packetData.getD (gvspPacketGetPacketId st.packet) false = true) := by
      rw [h.nPackets]
      exact fun hlt => Nat.not_lt_zero _ hlt.1
    rw [if_neg hfresh]
    have htrack : Holds { st with frame := st.frame.track (gvspPacketGetPacketId st.packet) }
        frameId handed st.buffer :=
      ⟨h.last, h.isStarted, h.nPackets, h.handed, h.overrun, h.buffer⟩
    split
    · rename_i hblock
      have hdata : isDataBlock st.packet = true := by simp [isDataBlock, herror, hblock]
      rw [added, if_pos hdata]
      exact copyBlock_holds htrack (hsize hdata)
    · rename_i hblock
      have hadded : added st.packet = [] := by simp [added, isDataBlock, hblock]
      rw [hadded, List.append_nil]
      split
      · exact htrack
      · exact ⟨h.last, h.isStarted, h.nPackets, h.handed, h.overrun, h.buffer⟩

theorem receive_overrun (h : st.overrun = true) : st.receive datagram = st := if_pos h

theorem run_overrun (h : st.overrun = true) : st.run datagrams = st := by
  induction datagrams with
  | nil => rfl
  | cons d ds ih => rw [Thread.run, List.foldl_cons, receive_overrun h, ← Thread.run, ih]

theorem run_concat : st.run (datagrams ++ [datagram]) = (st.run datagrams).receive datagram :=
  List.foldl_concat ..

theorem nextFrame_other (hover : st.overrun = false)
    (hne : gvspPacketGetFrameId st.packet ≠ st.lastFrameId) :
    Holds st.nextFrame (gvspPacketGetFrameId st.packet) (st.handed ++ st.ended) [] ∧
    st.nextFrame.packet = st.packet ∧ st.nextFrame.buffer = [] := by
  simp only [Thread.nextFrame]
  rw [if_pos hne]
  refine ⟨⟨rfl, rfl, rfl, ?_, hover, fun _ => rfl⟩, rfl, rfl⟩
  show (if st.frame.isStarted then _ else _) = _
  rw [Thread.ended]
  split
  · rfl
  · exact (List.append_nil _).symm

theorem nextFrame_same (heq : gvspPacketGetFrameId st.packet = st.lastFrameId) :
    st.nextFrame = st := if_neg (not_not_intro heq)

theorem receive_other (hover : st.overrun = false)
    (hd : HeaderReceived packetSize.toNat datagram)
    (hne : gvspPacketGetFrameId datagram ≠ st.lastFrameId) :
    Holds (st.receive datagram) (gvspPacketGetFrameId datagram) (st.handed ++ st.ended)
      (added (recvfrom st.packet datagram)) := by
  have hsame := recvfrom_header (st.packet_length ▸ hd)
  have hrecv : (st.recv datagram).overrun = false := hover
  obtain ⟨hholds, hpacket, hbuffer⟩ := nextFrame_other hrecv (hsame.frameId ▸ hne)
  have hadd := addPacket_holds (hbuffer.symm ▸ hholds) (fun _ => by rw [hpacket]; exact hsame.size ▸ hd.2)
  rw [hbuffer, List.nil_append, hpacket] at hadd
  rw [Thread.receive, if_neg (Bool.eq_false_iff.mp hover)]
  exact hsame.frameId ▸ hadd

/-- The next packet of the frame adds its block, whatever its packet id is. -/
theorem Holds.receive_same (h : Holds st frameId handed buffer)
    (hd : HeaderReceived packetSize.toNat datagram) (heq : gvspPacketGetFrameId datagram = frameId) :
    Holds (st.receive datagram) frameId handed (buffer ++ added (recvfrom st.packet datagram)) := by
  by_cases hle : buffer.length ≤ maxFrameSize
  · have hover : st.overrun = false := h.overrun.trans (decide_eq_false (Nat.not_lt.mpr hle))
    have hsame := recvfrom_header (st.packet_length ▸ hd)
    have hb := h.buffer hle
    have hrecv : Holds (st.recv datagram) frameId handed (st.recv datagram).buffer :=
      ⟨h.last, h.isStarted, h.nPackets, h.handed, hb ▸ h.overrun, fun _ => rfl⟩
    have hadd := addPacket_holds hrecv fun _ => hsame.size ▸ hd.2
    have hframe : gvspPacketGetFrameId (st.recv datagram).packet = (st.recv datagram).lastFrameId :=
      hsame.frameId.trans (heq.trans h.last.symm)
    rw [Thread.receive, if_neg (Bool.eq_false_iff.mp hover), nextFrame_same hframe]
    exact hb ▸ hadd
  · have hover : st.overrun = true := h.overrun.trans (decide_eq_true (Nat.lt_of_not_le hle))
    rw [receive_overrun hover]
    have hlen : maxFrameSize < (buffer ++ added (recvfrom st.packet datagram)).length := by
      rw [List.length_append]
      omega
    exact ⟨h.last, h.isStarted, h.nPackets, h.handed, hover.trans (decide_eq_true hlen).symm,
      fun hle' => absurd hlen (Nat.not_lt.mpr hle')⟩

theorem Holds.receive_other (h : Holds st frameId handed buffer)
    (hle : buffer.length ≤ maxFrameSize) (hd : HeaderReceived packetSize.toNat datagram)
    (hne : gvspPacketGetFrameId datagram ≠ frameId) :
    Holds (st.receive datagram) (gvspPacketGetFrameId datagram) (handed ++ [⟨frameId, buffer⟩])
      (added (recvfrom st.packet datagram)) := by
  have hover : st.overrun = false := h.overrun.trans (decide_eq_false (Nat.not_lt.mpr hle))
  have hended : st.ended = [⟨frameId, buffer⟩] := by
    rw [Thread.ended, if_pos h.isStarted, h.last, h.buffer hle]
  have hother := GigeCamera.receive_other hover hd (h.last ▸ hne)
  rwa [hended, h.handed] at hother

/-- A packet with the id that the thread starts with is ignored. -/
theorem receive_ignored (hover : st.overrun = false) (hs : st.frame.isStarted = false)
    (hd : HeaderReceived packetSize.toNat datagram)
    (heq : gvspPacketGetFrameId datagram = st.lastFrameId) :
    (st.receive datagram).overrun = false ∧ (st.receive datagram).frame.isStarted = false ∧
    (st.receive datagram).lastFrameId = st.lastFrameId ∧
    (st.receive datagram).handed = st.handed := by
  have hsame := recvfrom_header (st.packet_length ▸ hd)
  have hns : ¬ (st.recv datagram).frame.isStarted = true := Bool.eq_false_iff.mp hs
  have hframe : gvspPacketGetFrameId (st.recv datagram).packet = (st.recv datagram).lastFrameId :=
    hsame.frameId.trans heq
  rw [Thread.receive, if_neg (Bool.eq_false_iff.mp hover), nextFrame_same hframe]
  simp only [Thread.addPacket]
  rw [if_neg hns]
  exact ⟨hover, hs, rfl, rfl⟩

end Step

/-! ### The packets of one frame -/

/-- A part that the datagram may add to the iframe, with what the buffer held before. -/
def Part (packetSize : BitVec 32) (datagram part : Bytes) : Prop :=
  ∃ packet : Bytes, packet.length = packetSize.toNat ∧ part = added (recvfrom packet datagram)

section Part

variable {st : Thread packetSize} {frameId : ℕ} {handed : List IframeData}
  {buffer datagram part : Bytes} {datagrams : List Bytes}

theorem Holds.run_same (h : Holds st frameId handed buffer)
    (hds : ∀ d ∈ datagrams, HeaderReceived packetSize.toNat d ∧ gvspPacketGetFrameId d = frameId) :
    ∃ parts, List.Forall₂ (Part packetSize) datagrams parts ∧
      Holds (st.run datagrams) frameId handed (buffer ++ parts.flatten) := by
  induction datagrams generalizing st buffer with
  | nil => exact ⟨[], .nil, (List.append_nil buffer).symm ▸ h⟩
  | cons d ds ih =>
    obtain ⟨⟨hd, heq⟩, hds⟩ := List.forall_mem_cons.mp hds
    obtain ⟨parts, hparts, hrun⟩ := ih (h.receive_same hd heq) hds
    refine ⟨added (recvfrom st.packet d) :: parts, .cons ⟨_, st.packet_length, rfl⟩ hparts, ?_⟩
    rw [List.flatten_cons, ← List.append_assoc]
    exact hrun

theorem isDataBlock_recvfrom {packet : Bytes} (hd : HeaderReceived packet.length datagram) :
    isDataBlock (recvfrom packet datagram) = isDataBlock datagram := by
  have hsame := recvfrom_header hd
  rw [isDataBlock, isDataBlock, hsame.packetType, hsame.contentType]

theorem Part.other (h : Part packetSize datagram part)
    (hd : HeaderReceived packetSize.toNat datagram) (hb : isDataBlock datagram = false) :
    part = [] := by
  obtain ⟨packet, hlen, rfl⟩ := h
  rw [added, isDataBlock_recvfrom (hlen ▸ hd), hb]
  rfl

theorem Part.block_length (h : Part packetSize datagram part)
    (hd : HeaderReceived packetSize.toNat datagram) (hb : isDataBlock datagram = true) :
    part.length = packetSize.toNat - gvspHeaderSize datagram := by
  obtain ⟨packet, hlen, rfl⟩ := h
  rw [← hlen] at hd
  rw [added, isDataBlock_recvfrom hd, if_pos hb, gvspPacketGetData, List.length_drop,
    recvfrom_length, (recvfrom_header hd).size, hlen]

theorem Part.block (h : Part packetSize datagram part)
    (hd : HeaderReceived packetSize.toNat datagram) (hb : isDataBlock datagram = true)
    (hlen : datagram.length ≤ packetSize.toNat) : gvspPacketGetData datagram <+: part := by
  obtain ⟨packet, hpacket, rfl⟩ := h
  rw [← hpacket] at hd hlen
  rw [added, isDataBlock_recvfrom hd, if_pos hb, recvfrom_data hd hlen]
  exact List.prefix_append _ _

end Part

/-! ### Blocks of one size -/

section Blocks

variable {α : Type*} {cap : ℕ} {bs blocks payloads copied : List (List α)}

theorem length_flatten_eq (h : ∀ b ∈ bs, b.length = cap) : bs.flatten.length = bs.length * cap := by
  induction bs with
  | nil => exact (Nat.zero_mul _).symm
  | cons b bs ih =>
    rw [List.flatten_cons, List.length_append, ih fun b hb => h b (List.mem_cons_of_mem _ hb),
      h b List.mem_cons_self, List.length_cons, Nat.add_mul, Nat.one_mul, Nat.add_comm]

theorem full_of_length_flatten (h : ∀ b ∈ bs, b.length ≤ cap) :
    bs.flatten.length ≤ bs.length * cap ∧
    (bs.flatten.length = bs.length * cap → ∀ b ∈ bs, b.length = cap) := by
  induction bs with
  | nil => exact ⟨(Nat.zero_mul _).ge, fun _ b hb => (List.not_mem_nil hb).elim⟩
  | cons b bs ih =>
    obtain ⟨hle, hfull⟩ := ih fun b hb => h b (List.mem_cons_of_mem _ hb)
    have hb := h b List.mem_cons_self
    rw [List.flatten_cons, List.length_append, List.length_cons, Nat.add_mul, Nat.one_mul]
    refine ⟨by omega, fun heq c hc => ?_⟩
    rcases List.mem_cons.mp hc with rfl | hc
    · omega
    · exact hfull (by omega) c hc

/-- A block of `cap` entries that starts with a payload, which may be shorter. -/
def Fills (cap : ℕ) (payload block : List α) : Prop := block.length = cap ∧ payload <+: block

theorem fills_length (h : List.Forall₂ (Fills cap) payloads copied) :
    ∀ c ∈ copied, c.length = cap := by
  induction h with
  | nil => exact fun c hc => (List.not_mem_nil hc).elim
  | cons hpc _ ih => exact List.forall_mem_cons.mpr ⟨hpc.1, ih⟩

theorem fills_full (h : List.Forall₂ (Fills cap) payloads copied)
    (hp : ∀ p ∈ payloads, p.length = cap) : copied = payloads := by
  induction h with
  | nil => rfl
  | cons hpc _ ih =>
    obtain ⟨hp, hps⟩ := List.forall_mem_cons.mp hp
    rw [ih hps, hpc.2.eq_of_length (hp.trans hpc.1.symm)]

/-- Filled blocks, at least as many as the blocks of a frame, are these blocks laid out
exactly if they are empty or came in order, once and full. -/
theorem copied_iff (hcopied : List.Forall₂ (Fills cap) payloads copied)
    (hle : ∀ b ∈ blocks, b.length ≤ cap) (hmem : ∀ p ∈ payloads, p ∈ blocks)
    (hmany : blocks.length ≤ payloads.length) :
    copied.flatten = blocks.flatten ↔
      cap = 0 ∨ payloads = blocks ∧ ∀ b ∈ blocks, b.length = cap := by
  have hcap := length_flatten_eq (fills_length hcopied)
  obtain ⟨htotal, hfull⟩ := full_of_length_flatten hle
  constructor
  · intro heq
    by_cases h0 : cap = 0
    · exact .inl h0
    have hpos : 0 < cap := Nat.pos_of_ne_zero h0
    have hlen := hcopied.length_eq
    rw [← heq, hcap] at htotal hfull
    have hcount : copied.length = blocks.length :=
      Nat.le_antisymm (Nat.le_of_mul_le_mul_right htotal hpos) (hlen ▸ hmany)
    have hall := hfull (by rw [hcount])
    have hpayloads := fills_full hcopied fun p hp => hall p (hmem p hp)
    refine .inr ⟨?_, hall⟩
    rw [← hpayloads, List.eq_iff_flatten_eq]
    refine ⟨heq, ?_⟩
    rw [List.map_eq_replicate_iff.mpr (fills_length hcopied), List.map_eq_replicate_iff.mpr hall, hcount]
  · rintro (h0 | ⟨hpayloads, hall⟩)
    · rw [h0, Nat.mul_zero] at hcap htotal
      rw [List.length_eq_zero_iff.mp hcap, List.length_eq_zero_iff.mp (Nat.le_zero.mp htotal)]
    · rw [fills_full hcopied (hpayloads ▸ hall), hpayloads]

end Blocks

/-! ### Frame content -/

/-- A frame as the camera sends it in packets of at most `packetSize` bytes: all of its blocks
are full but the last. -/
structure Frame (packetSize : BitVec 32) where
  frameId : ℕ
  headerSize : ℕ
  blocks : List Bytes
  full : ∀ b ∈ blocks.dropLast, b.length = packetSize.toNat - headerSize
  last_le : ∀ b ∈ blocks.getLast?, b.length ≤ packetSize.toNat - headerSize

/-- The size of a full block. -/
def Frame.capacity (f : Frame packetSize) : ℕ := packetSize.toNat - f.headerSize

/-- A packet of the frame: its leader, its trailer or the block of its packet id. -/
structure Frame.Packet (f : Frame packetSize) (datagram : Bytes) : Prop where
  header : HeaderReceived packetSize.toNat datagram
  frameId : gvspPacketGetFrameId datagram = f.frameId
  headerSize : gvspHeaderSize datagram = f.headerSize
  noError : gvspPacketTypeIsError (gvspPacketGetPacketType datagram) = false
  content : gvspPacketGetContentType datagram = gvspContentTypeDataLeader ∨
    gvspPacketGetContentType datagram = gvspContentTypeDataTrailer ∨
    (gvspPacketGetContentType datagram = gvspContentTypeDataBlock ∧
      ∃ k, gvspPacketGetPacketId datagram = k + 1 ∧
        f.blocks[k]? = some (gvspPacketGetData datagram))

/-- All packets of the frame arrive, in some order and some of them more than once, and then one
of another frame; the frame is not one that the thread received before them. -/
structure Arrives (st : Thread packetSize) (f : Frame packetSize) (arrivals : List Bytes)
    (next : Bytes) : Prop where
  fresh : st.frame.isStarted = true → st.lastFrameId ≠ f.frameId
  packets : ∀ d ∈ arrivals, f.Packet d
  leader : ∃ d ∈ arrivals, gvspPacketGetContentType d = gvspContentTypeDataLeader
  trailer : ∃ d ∈ arrivals, gvspPacketGetContentType d = gvspContentTypeDataTrailer
  blocks : ∀ k < f.blocks.length, ∃ d ∈ arrivals,
    gvspPacketGetContentType d = gvspContentTypeDataBlock ∧ gvspPacketGetPacketId d = k + 1
  nextHeader : HeaderReceived packetSize.toNat next
  nextId : gvspPacketGetFrameId next ≠ f.frameId

/-- The frame is handed over once, with the payloads of its blocks. -/
def HandedOver (st : Thread packetSize) (f : Frame packetSize) (arrivals : List Bytes)
    (next : Bytes) : Prop :=
  (st.run (arrivals ++ [next])).handed.filter (·.frameId = f.frameId) =
    st.handed.filter (·.frameId = f.frameId) ++ [⟨f.frameId, f.blocks.flatten⟩]

/-- The payloads of the data blocks in the order in which they arrived. -/
def payloads (arrivals : List Bytes) : List Bytes :=
  (arrivals.filter isDataBlock).map gvspPacketGetData

/-- The thread can take the frame, and its blocks came in order, each once and the last one full
too (or they are empty). -/
def InSequence (st : Thread packetSize) (f : Frame packetSize) (arrivals : List Bytes) : Prop :=
  st.overrun = false ∧ st.lastFrameId ≠ f.frameId ∧ f.blocks.flatten.length ≤ maxFrameSize ∧
  (f.capacity = 0 ∨ payloads arrivals = f.blocks ∧ ∀ b ∈ f.blocks, b.length = f.capacity)

section Content

variable {st : Thread packetSize} {f : Frame packetSize} {arrivals : List Bytes} {next : Bytes}
  {parts : List Bytes}

theorem Frame.block_le {b : Bytes} (hb : b ∈ f.blocks) : b.length ≤ f.capacity := by
  have hne : f.blocks ≠ [] := List.ne_nil_of_mem hb
  rw [← List.dropLast_append_getLast hne] at hb
  rcases List.mem_append.mp hb with hb | hb
  · exact (f.full b hb).le
  · rw [List.mem_singleton.mp hb]
    exact f.last_le _ (List.getLast?_eq_some_getLast hne)

theorem Frame.Packet.isDataBlock_iff {d : Bytes} (h : f.Packet d) : isDataBlock d = true ↔
    gvspPacketGetContentType d = gvspContentTypeDataBlock := by
  rw [isDataBlock, h.noError, Bool.not_false, Bool.true_and, beq_iff_eq]

theorem Frame.Packet.block {d : Bytes} (h : f.Packet d) (hb : isDataBlock d = true) :
    gvspPacketGetData d ∈ f.blocks ∧ d.length ≤ packetSize.toNat := by
  have hc := h.isDataBlock_iff.mp hb
  rcases h.content with h1 | h1 | ⟨-, k, -, hk⟩
  · exact absurd (hc.symm.trans h1) (by decide)
  · exact absurd (hc.symm.trans h1) (by decide)
  · have hmem := List.mem_of_getElem? hk
    refine ⟨hmem, ?_⟩
    have hle := f.block_le hmem
    have hlen := h.headerSize
    obtain ⟨hd, hn⟩ := h.header
    rw [gvspPacketGetData, List.length_drop, Frame.capacity, ← hlen] at hle
    omega

theorem parts_fill (hp : ∀ d ∈ arrivals, f.Packet d)
    (h : List.Forall₂ (Part packetSize) arrivals parts) :
    ∃ copied, List.Forall₂ (Fills f.capacity) (payloads arrivals) copied ∧
      copied.flatten = parts.flatten := by
  induction h with
  | nil => exact ⟨[], .nil, rfl⟩
  | @cons d part ds parts hpart _ ih =>
    obtain ⟨hd, hds⟩ := List.forall_mem_cons.mp hp
    obtain ⟨copied, hcopied, hflat⟩ := ih hds
    by_cases hb : isDataBlock d = true
    · refine ⟨part :: copied, ?_, by rw [List.flatten_cons, List.flatten_cons, hflat]⟩
      rw [payloads, List.filter_cons_of_pos hb, List.map_cons]
      refine .cons ⟨?_, hpart.block hd.header hb (hd.block hb).2⟩ hcopied
      rw [hpart.block_length hd.header hb, hd.headerSize, Frame.capacity]
    · refine ⟨copied, ?_, ?_⟩
      · rw [payloads, List.filter_cons_of_neg hb]
        exact hcopied
      · rw [hflat, hpart.other hd.header (Bool.eq_false_iff.mpr hb), List.flatten_cons, List.nil_append]

theorem Arrives.many (h : Arrives st f arrivals next) :
    f.blocks.length ≤ (payloads arrivals).length := by
  have hsub : (List.range f.blocks.length).map (· + 1) ⊆
      (arrivals.filter isDataBlock).map gvspPacketGetPacketId := by
    intro i hi
    obtain ⟨k, hk, rfl⟩ := List.mem_map.mp hi
    obtain ⟨d, hd, hc, hid⟩ := h.blocks k (List.mem_range.mp hk)
    have hb := (h.packets d hd).isDataBlock_iff.mpr hc
    exact List.mem_map.mpr ⟨d, List.mem_filter.mpr ⟨hd, hb⟩, hid⟩
  have hnodup : ((List.range f.blocks.length).map (· + 1)).Nodup :=
    List.Nodup.map (fun _ _ he => Nat.succ_injective he) List.nodup_range
  have hle := (hnodup.subperm hsub).length_le
  rw [List.length_map, List.length_map, List.length_range] at hle
  rw [payloads, List.length_map]
  exact hle

theorem run_ignored (hover : st.overrun = false) (hs : st.frame.isStarted = false)
    (heq : st.lastFrameId = f.frameId) (hp : ∀ d ∈ arrivals, f.Packet d) :
    (st.run arrivals).overrun = false ∧ (st.run arrivals).frame.isStarted = false ∧
    (st.run arrivals).lastFrameId = st.lastFrameId ∧ (st.run arrivals).handed = st.handed := by
  induction arrivals generalizing st with
  | nil => exact ⟨hover, hs, rfl, rfl⟩
  | cons d ds ih =>
    obtain ⟨hd, hds⟩ := List.forall_mem_cons.mp hp
    obtain ⟨hover', hs', hlast', hhanded'⟩ :=
      receive_ignored hover hs hd.header (hd.frameId.trans heq.symm)
    obtain ⟨h1, h2, h3, h4⟩ := ih hover' hs' (hlast'.trans heq) hds
    exact ⟨h1, h2, h3.trans hlast', h4.trans hhanded'⟩

/-- A frame that the thread takes: what it holds when all packets have arrived. -/
theorem Arrives.holds (h : Arrives st f arrivals next) (hover : st.overrun = false)
    (hne : st.lastFrameId ≠ f.frameId) :
    ∃ copied, List.Forall₂ (Fills f.capacity) (payloads arrivals) copied ∧
      Holds (st.run arrivals) f.frameId (st.handed ++ st.ended) copied.flatten := by
  obtain ⟨parts, hparts, hrun⟩ : ∃ parts, List.Forall₂ (Part packetSize) arrivals parts ∧
      Holds (st.run arrivals) f.frameId (st.handed ++ st.ended) parts.flatten := by
    cases arrivals with
    | nil =>
      obtain ⟨d, hd, -⟩ := h.leader
      exact (List.not_mem_nil hd).elim
    | cons d ds =>
      obtain ⟨hd, hds⟩ := List.forall_mem_cons.mp h.packets
      have hfirst := receive_other hover hd.header (hd.frameId ▸ hne.symm)
      rw [hd.frameId] at hfirst
      obtain ⟨parts, hparts, hrun⟩ := hfirst.run_same fun d hd => ⟨(hds d hd).header, (hds d hd).frameId⟩
      exact ⟨_ :: parts, .cons ⟨_, st.packet_length, rfl⟩ hparts, hrun⟩
  obtain ⟨copied, hcopied, hflat⟩ := parts_fill h.packets hparts
  exact ⟨copied, hcopied, hflat ▸ hrun⟩

theorem not_handedOver (h : ((st.run (arrivals ++ [next])).handed.filter (·.frameId = f.frameId)) =
    st.handed.filter (·.frameId = f.frameId)) : ¬ HandedOver st f arrivals next := by
  intro hh
  have hlen := congrArg List.length (h.symm.trans hh)
  rw [List.length_append, List.length_singleton] at hlen
  omega

theorem filter_ended (hne : st.lastFrameId ≠ f.frameId) (handed : List IframeData) :
    (st.handed ++ st.ended ++ handed).filter (·.frameId = f.frameId) =
      st.handed.filter (·.frameId = f.frameId) ++ handed.filter (·.frameId = f.frameId) := by
  have hended : st.ended.filter (·.frameId = f.frameId) = [] := by
    rw [Thread.ended]
    split
    · exact List.filter_cons_of_neg (by simpa using hne)
    · rfl
  rw [List.filter_append, List.filter_append, hended, List.append_nil]

/-- The iframe of a frame has its blocks exactly if the packets came in sequence. -/
theorem frame_content (st : Thread packetSize) (f : Frame packetSize) (arrivals : List Bytes)
    (next : Bytes) (h : Arrives st f arrivals next) :
    HandedOver st f arrivals next ↔ InSequence st f arrivals := by
  by_cases hover : st.overrun = true
  · refine iff_of_false (not_handedOver ?_) fun hc => Bool.eq_false_iff.mp hc.1 hover
    rw [run_overrun hover]
  rw [Bool.not_eq_true] at hover
  by_cases heq : st.lastFrameId = f.frameId
  · refine iff_of_false (not_handedOver ?_) fun hc => hc.2.1 heq
    have hs : st.frame.isStarted = false := Bool.eq_false_iff.mpr fun hs => h.fresh hs heq
    obtain ⟨hover', hs', hlast', hhanded'⟩ := run_ignored hover hs heq h.packets
    have hnext := receive_other hover' h.nextHeader (hlast'.trans heq ▸ h.nextId)
    rw [run_concat, hnext.handed, hhanded', Thread.ended, hs']
    exact congrArg _ (List.append_nil _)
  obtain ⟨copied, hcopied, hholds⟩ := h.holds hover heq
  have hiff := copied_iff hcopied (fun b hb => f.block_le hb) (fun p hp => by
    obtain ⟨d, hd, rfl⟩ := List.mem_map.mp hp
    obtain ⟨hd, hb⟩ := List.mem_filter.mp hd
    exact ((h.packets d hd).block hb).1) h.many
  by_cases hfits : copied.flatten.length ≤ maxFrameSize
  · have hnext := hholds.receive_other hfits h.nextHeader h.nextId
    rw [HandedOver, run_concat, hnext.handed, filter_ended heq,
      List.filter_cons_of_pos (by simp), List.filter_nil, List.append_cancel_left_eq,
      List.cons.injEq, IframeData.mk.injEq]
    constructor
    · rintro ⟨⟨-, hflat⟩, -⟩
      exact ⟨hover, heq, hflat ▸ hfits, hiff.mp hflat⟩
    · rintro ⟨-, -, -, hseq⟩
      exact ⟨⟨rfl, hiff.mpr hseq⟩, rfl⟩
  · refine iff_of_false (not_handedOver ?_) fun ⟨_, _, hlen, hseq⟩ => ?_
    · have hover' := hholds.overrun.trans (decide_eq_true (Nat.lt_of_not_le hfits))
      rw [run_concat, receive_overrun hover', hholds.handed]
      simpa using filter_ended heq []
    · rw [← hiff.mpr hseq] at hlen
      exact hfits hlen

end Content

/-- A packet with a 16 bit frame id. -/
def gvspPacket (frameId contentType packetId : ℕ) (data : Bytes) : Bytes :=
  beBytes 2 0 ++ beBytes 2 frameId ++ beBytes 4 (contentType * 2 ^ 24 + packetId) ++ data

/-- Frame 1 of one block, for a camera with packets of 100 bytes: 64 of them are data. -/
def oneBlock (block : Bytes) (h : block.length ≤ 64) : Frame (gvspBufferSize 100) where
  frameId := 1
  headerSize := 8
  blocks := [block]
  full := fun _ hb => (List.not_mem_nil hb).elim
  last_le := fun _ hb => Option.mem_some.mp hb ▸ h

def oneBlockPackets (block : Bytes) : List Bytes :=
  [gvspPacket 1 1 0 (List.replicate 36 0), gvspPacket 1 3 1 block, gvspPacket 1 2 2 []]

def nextLeader : Bytes := gvspPacket 2 1 0 (List.replicate 36 0)

def oneBlockStart : Thread (gvspBufferSize 100) := start (List.replicate 72 0) rfl

theorem block_header (block : Bytes) : SameHeader (gvspPacket 1 3 1 block) (gvspPacket 1 3 1 []) := by
  have hsize : gvspHeaderSize (gvspPacket 1 3 1 []) = 8 := by decide
  have htake : ∀ data, (gvspPacket 1 3 1 data).take 8 =
      beBytes 2 0 ++ beBytes 2 1 ++ beBytes 4 (3 * 2 ^ 24 + 1) := fun _ => List.take_left' rfl
  refine sameHeader_of_take ?_
  rw [hsize, htake, htake]

theorem oneBlock_arrives {block : Bytes} (h : block.length ≤ 64) :
    Arrives oneBlockStart (oneBlock block h) (oneBlockPackets block) nextLeader where
  fresh := fun hs => nomatch hs
  packets := by
    have hb := block_header block
    have hsize : gvspHeaderSize (gvspPacket 1 3 1 block) = 8 := hb.size.trans (by decide)
    refine List.forall_mem_cons.mpr ⟨⟨by decide, rfl, rfl, rfl, .inl rfl⟩, ?_⟩
    refine List.forall_mem_cons.mpr ⟨⟨?_, hb.frameId.trans rfl, hsize, ?_, ?_⟩, ?_⟩
    · exact ⟨hsize.trans_le (Nat.le_add_left 8 block.length), hsize.trans_le (by decide)⟩
    · exact hb.packetType ▸ rfl
    · refine .inr (.inr ⟨hb.contentType.trans rfl, 0, hb.packetId.trans rfl, ?_⟩)
      rw [gvspPacketGetData, hsize]
      rfl
    · refine List.forall_mem_cons.mpr ⟨⟨by decide, rfl, rfl, rfl, .inr (.inl rfl)⟩, ?_⟩
      exact fun d hd => (List.not_mem_nil hd).elim
  leader := ⟨_, List.mem_cons_self, rfl⟩
  trailer := ⟨_, List.mem_cons_of_mem _ (List.mem_cons_of_mem _ List.mem_cons_self), rfl⟩
  blocks := by
    intro k hk
    rw [Nat.lt_one_iff.mp hk]
    refine ⟨_, List.mem_cons_of_mem _ List.mem_cons_self, ?_, ?_⟩
    · exact (block_header block).contentType.trans rfl
    · exact (block_header block).packetId.trans rfl
  nextHeader := by decide
  nextId := show gvspPacketGetFrameId nextLeader ≠ 1 by decide

theorem frame_content_full : HandedOver oneBlockStart (oneBlock (List.replicate 64 7) (by decide))
    (oneBlockPackets (List.replicate 64 7)) nextLeader := by
  refine (frame_content _ _ _ _ (oneBlock_arrives _)).mpr ⟨rfl, by decide, by decide, .inr ⟨rfl, ?_⟩⟩
  intro b hb
  rw [List.mem_singleton.mp hb]
  rfl

/-- A block of one byte is handed over with the rest of the packet buffer. -/
theorem frame_content_short :
    Arrives oneBlockStart (oneBlock [7] (by decide)) (oneBlockPackets [7]) nextLeader ∧
    ¬ HandedOver oneBlockStart (oneBlock [7] (by decide)) (oneBlockPackets [7]) nextLeader := by
  refine ⟨oneBlock_arrives _, ?_⟩
  rw [HandedOver]
  decide +kernel

end TmkDcl.Capture.GigeCamera
