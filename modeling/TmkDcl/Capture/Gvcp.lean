import TmkDcl.Bytes

/-!
# GVCP packets (udpcapture/gvcp.h, libcapture/src/gvcp.c)

The requests that `read_register` and `write_register` send and the way an acknowledgement
is taken. Packets are in host order; only `packet_type` is swapped by the code although it has
one byte (`gvcp.c:171`).
-/

namespace TmkDcl.Capture

/-- `next_packet_id` (`gvcp.h:60`): the variable that the macro steps, and the id. -/
def nextPacketId (id : BitVec 32) : BitVec 32 × BitVec 32 :=
  (id + 1, 0xf000 ||| ((id + 1) &&& 0xfff))

/-! ### Constants of gvcp.h -/

def gvcpPacketTypeAck : BitVec 8 := 0x00
def gvcpPacketTypeCmd : BitVec 8 := 0x42

def gvcpCommandReadRegCmd : BitVec 16 := 0x0080
def gvcpCommandReadRegAck : BitVec 16 := 0x0081
def gvcpCommandWriteRegCmd : BitVec 16 := 0x0082

def gvcpCmdPacketFlagsAckRequired : BitVec 8 := 0x01

/-! ### Packets -/

/-- `struct gvcp_packet` (`gvcp.h:92-103`) and the bytes behind its header. -/
structure GvcpPacket where
  packetType : BitVec 8
  packetFlags : BitVec 8
  command : BitVec 16
  size : BitVec 16
  id : BitVec 16
  data : Bytes
  deriving DecidableEq

/-- `gvcp_read_register_packet` (`gvcp.c:128-144`). -/
def gvcpReadRegisterPacket (regAddr packetId : BitVec 32) : GvcpPacket where
  packetType := gvcpPacketTypeCmd
  packetFlags := gvcpCmdPacketFlagsAckRequired
  command := gvcpCommandReadRegCmd
  size := 4
  id := packetId.setWidth 16
  data := beBytes 4 regAddr.toNat

/-- `gvcp_write_register_packet` (`gvcp.c:146-164`). -/
def gvcpWriteRegisterPacket (regAddr regValue packetId : BitVec 32) : GvcpPacket where
  packetType := gvcpPacketTypeCmd
  packetFlags := gvcpCmdPacketFlagsAckRequired
  command := gvcpCommandWriteRegCmd
  size := 2 * 4
  id := packetId.setWidth 16
  data := beBytes 4 regAddr.toNat ++ beBytes 4 regValue.toNat

/-- `ntohs` on a little-endian host. -/
def ntohs (v : BitVec 16) : BitVec 16 := BitVec.ofNat 16 (v.toNat / 256 + 256 * (v.toNat % 256))

/-- The register value behind the header of an acknowledgement. -/
def GvcpPacket.value (packet : GvcpPacket) : BitVec 32 :=
  BitVec.ofNat 32 (beNat (packet.data.take 4))

/-- `gvcp_register_ack` (`gvcp.c:166-177`): the value after the call. -/
def gvcpRegisterAck (value : BitVec 32) : Option GvcpPacket → BitVec 32
  | none => value
  | some packet =>
    if ntohs (packet.packetType.setWidth 16) = gvcpPacketTypeAck.setWidth 16 then packet.value
    else value

section Ack

variable {value : BitVec 32} {packet : GvcpPacket}

theorem ntohs_packetType (t : BitVec 8) :
    ntohs (t.setWidth 16) = gvcpPacketTypeAck.setWidth 16 ↔ t = gvcpPacketTypeAck := by
  constructor
  · intro h
    have ht := t.isLt
    have hv : (t.setWidth 16).toNat = t.toNat := by
      rw [BitVec.toNat_setWidth]
      omega
    have hn : (ntohs (t.setWidth 16)).toNat = 0 := by
      rw [h]
      rfl
    rw [ntohs, BitVec.toNat_ofNat, hv, Nat.div_eq_of_lt ht, Nat.mod_eq_of_lt ht,
      Nat.mod_eq_of_lt (by omega)] at hn
    have h0 : gvcpPacketTypeAck.toNat = 0 := rfl
    exact BitVec.eq_of_toNat_eq (by omega)
  · rintro rfl
    decide

theorem registerAck_ack (h : packet.packetType = gvcpPacketTypeAck) :
    gvcpRegisterAck value (some packet) = packet.value :=
  if_pos ((ntohs_packetType _).mpr h)

theorem registerAck_other (h : packet.packetType ≠ gvcpPacketTypeAck) :
    gvcpRegisterAck value (some packet) = value :=
  if_neg fun he => h ((ntohs_packetType _).mp he)

end Ack

end TmkDcl.Capture
