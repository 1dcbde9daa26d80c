import Mathlib.Data.List.GetD
import TmkDcl.Bytes

/-!
# GVSP packets (udpcapture/gvsp.h)

The thread of a camera decodes a packet in the buffer that it received it into. What it
reads of the header depends on the header alone; the data block it copies is what the whole
buffer holds behind the header.
-/

namespace TmkDcl.Capture

/-! ### Constants of gvsp.h -/

def gvspPacketExtendedIdModeMask : UInt8 := 0x80
def gvspPacketIdMask : ℕ := 0x00ffffff
def gvspPacketInfoContentTypeMask : ℕ := 0x7f000000
def gvspPacketInfoContentTypePos : ℕ := 24

def ipHeaderSize : BitVec 32 := 20
def udpHeaderSize : BitVec 32 := 8

def gvspContentTypeDataLeader : ℕ := 0x01
def gvspContentTypeDataTrailer : ℕ := 0x02
def gvspContentTypeDataBlock : ℕ := 0x03

/-! ### Access to the fields (gvsp.h:84-150) -/

/-- `n` bytes at the offset `pos`; what lies behind the buffer counts as 0. -/
def field (packet : Bytes) (pos n : ℕ) : Bytes := (packet.drop pos ++ List.replicate n 0).take n

/-- `gvsp_packet_has_extended_ids`: `header[2]`, behind the two bytes of the packet type. -/
def gvspPacketHasExtendedIds (packet : Bytes) : Bool :=
  packet.getD 4 0 &&& gvspPacketExtendedIdModeMask != 0

/-- `sizeof(struct gvsp_packet)` and the size of the header that follows. -/
def gvspHeaderSize (packet : Bytes) : ℕ :=
  if gvspPacketHasExtendedIds packet then 2 + 18 else 2 + 6

def gvspPacketGetPacketType (packet : Bytes) : ℕ := beNat (field packet 0 2)

/-- `gvsp_packet_type_is_error`: the code compares with `GVCP_PACKET_TYPE_ERROR`. -/
def gvspPacketTypeIsError (packetType : ℕ) : Bool := packetType == 0x80

/-- `packet_info`, which is at one place in both headers. -/
def packetInfo (packet : Bytes) : ℕ := beNat (field packet 4 4)

def gvspPacketGetContentType (packet : Bytes) : ℕ :=
  (packetInfo packet &&& gvspPacketInfoContentTypeMask) >>> gvspPacketInfoContentTypePos

def gvspPacketGetPacketId (packet : Bytes) : ℕ :=
  if gvspPacketHasExtendedIds packet then beNat (field packet 16 4)
  else packetInfo packet &&& gvspPacketIdMask

/-- `gvsp_packet_get_frame_id`; an extended id is taken in host order. -/
def gvspPacketGetFrameId (packet : Bytes) : ℕ :=
  if gvspPacketHasExtendedIds packet then leNat (field packet 8 8)
  else beNat (field packet 2 2)

def gvspPacketGetData (packet : Bytes) : Bytes := packet.drop (gvspHeaderSize packet)

/-- `gvsp_packet_get_data_size`: of the size of the buffer, not of what was received. -/
def gvspPacketGetDataSize (packet : Bytes) (packetSize : ℕ) : ℕ :=
  (packetSize + 2 ^ 64 - gvspHeaderSize packet) % 2 ^ 64

/-- The header of a datagram is received into a buffer of `packetSize` bytes. -/
def HeaderReceived (packetSize : ℕ) (datagram : Bytes) : Prop :=
  gvspHeaderSize datagram ≤ datagram.length ∧ gvspHeaderSize datagram ≤ packetSize

instance (packetSize : ℕ) (datagram : Bytes) : Decidable (HeaderReceived packetSize datagram) :=
  inferInstanceAs (Decidable (_ ∧ _))

section Decode

variable {p q packet datagram : Bytes} {packetSize n pos k : ℕ}

theorem field_take (h : pos + k ≤ n) : field (p.take n) pos k = field p pos k := by
  rw [field, field, List.drop_take, List.take_append, List.take_append, List.take_take,
    Nat.min_eq_left (by omega)]
  refine congrArg₂ List.append rfl (congrArg (List.take · _) ?_)
  rw [List.length_take]
  omega

theorem eight_le_headerSize (p : Bytes) : 8 ≤ gvspHeaderSize p := by
  rw [gvspHeaderSize]
  split <;> omega

theorem hasExtendedIds_take (h : 8 ≤ n) :
    gvspPacketHasExtendedIds (p.take n) = gvspPacketHasExtendedIds p := by
  rw [gvspPacketHasExtendedIds, gvspPacketHasExtendedIds, List.getD_eq_getElem?_getD,
    List.getD_eq_getElem?_getD, List.getElem?_take_of_lt (by omega)]

theorem headerSize_take (h : 8 ≤ n) : gvspHeaderSize (p.take n) = gvspHeaderSize p := by
  rw [gvspHeaderSize, gvspHeaderSize, hasExtendedIds_take h]

theorem packetType_take (h : 8 ≤ n) :
    gvspPacketGetPacketType (p.take n) = gvspPacketGetPacketType p := by
  rw [gvspPacketGetPacketType, gvspPacketGetPacketType, field_take (by omega)]

theorem contentType_take (h : 8 ≤ n) :
    gvspPacketGetContentType (p.take n) = gvspPacketGetContentType p := by
  rw [gvspPacketGetContentType, gvspPacketGetContentType, packetInfo, packetInfo,
    field_take (by omega)]

theorem packetId_take (h : gvspHeaderSize p ≤ n) :
    gvspPacketGetPacketId (p.take n) = gvspPacketGetPacketId p := by
  have h8 : 8 ≤ n := (eight_le_headerSize p).trans h
  rw [gvspPacketGetPacketId, gvspPacketGetPacketId, hasExtendedIds_take h8]
  rw [gvspHeaderSize] at h
  split
  · rename_i hext
    rw [if_pos hext] at h
    rw [field_take (by omega)]
  · rw [packetInfo, packetInfo, field_take (by omega)]

theorem frameId_take (h : gvspHeaderSize p ≤ n) :
    gvspPacketGetFrameId (p.take n) = gvspPacketGetFrameId p := by
  have h8 : 8 ≤ n := (eight_le_headerSize p).trans h
  rw [gvspPacketGetFrameId, gvspPacketGetFrameId, hasExtendedIds_take h8]
  rw [gvspHeaderSize] at h
  split
  · rename_i hext
    rw [if_pos hext] at h
    rw [field_take (by omega)]
  · rw [field_take (by omega)]

theorem dataSize_eq (h : gvspHeaderSize p ≤ packetSize) (hlt : packetSize < 2 ^ 32) :
    gvspPacketGetDataSize p packetSize = packetSize - gvspHeaderSize p := by
  rw [gvspPacketGetDataSize]
  omega

/-- What the thread reads of the headers of two packets that have one header. -/
structure SameHeader (p q : Bytes) : Prop where
  size : gvspHeaderSize p = gvspHeaderSize q
  packetType : gvspPacketGetPacketType p = gvspPacketGetPacketType q
  contentType : gvspPacketGetContentType p = gvspPacketGetContentType q
  packetId : gvspPacketGetPacketId p = gvspPacketGetPacketId q
  frameId : gvspPacketGetFrameId p = gvspPacketGetFrameId q

theorem sameHeader_take (h : gvspHeaderSize p ≤ n) : SameHeader (p.take n) p where
  size := headerSize_take ((eight_le_headerSize p).trans h)
  packetType := packetType_take ((eight_le_headerSize p).trans h)
  contentType := contentType_take ((eight_le_headerSize p).trans h)
  packetId := packetId_take h
  frameId := frameId_take h

theorem SameHeader.symm (h : SameHeader p q) : SameHeader q p :=
  ⟨h.size.symm, h.packetType.symm, h.contentType.symm, h.packetId.symm, h.frameId.symm⟩

theorem SameHeader.trans {r : Bytes} (h : SameHeader p q) (h' : SameHeader q r) :
    SameHeader p r :=
  ⟨h.size.trans h'.size, h.packetType.trans h'.packetType, h.contentType.trans h'.contentType,
    h.packetId.trans h'.packetId, h.frameId.trans h'.frameId⟩

theorem sameHeader_of_take (h : p.take (gvspHeaderSize q) = q.take (gvspHeaderSize q)) :
    SameHeader p q := by
  have hq := sameHeader_take (p := q) (Nat.le_refl _)
  have hp : gvspHeaderSize p = gvspHeaderSize q := by
    rw [← headerSize_take (eight_le_headerSize q), h, hq.size]
  have hpq := sameHeader_take (p := p) (n := gvspHeaderSize q) hp.le
  exact hpq.symm.trans (h ▸ hq)

end Decode

/-! ### recvfrom -/

/-- `recvfrom(fd, packet, packet_size, ..)`: a longer datagram is cut, a shorter one leaves the
end of the buffer as it was. -/
def recvfrom (packet datagram : Bytes) : Bytes :=
  storeAt packet 0 (datagram.take packet.length)

section Recvfrom

variable {packet datagram : Bytes} {packetSize : ℕ}

theorem recvfrom_length : (recvfrom packet datagram).length = packet.length := by
  refine storeAt_length ?_
  rw [List.length_take]
  omega

theorem recvfrom_header (h : HeaderReceived packet.length datagram) :
    SameHeader (recvfrom packet datagram) datagram := by
  refine sameHeader_of_take ?_
  rw [recvfrom, storeAt, List.take_zero, List.nil_append, List.take_append_of_le_length,
    List.take_take, Nat.min_eq_left h.2]
  rw [List.length_take]
  exact Nat.le_min.mpr ⟨h.2, h.1⟩

/-- What the buffer holds behind the header: the data of the datagram, and then what an earlier
one left. -/
theorem recvfrom_data (h : HeaderReceived packet.length datagram)
    (hlen : datagram.length ≤ packet.length) :
    gvspPacketGetData (recvfrom packet datagram) =
      gvspPacketGetData datagram ++ packet.drop datagram.length := by
  rw [gvspPacketGetData, (recvfrom_header h).size, recvfrom, storeAt, List.take_zero,
    List.nil_append, List.take_of_length_le hlen, Nat.zero_add,
    List.drop_append_of_le_length h.1, gvspPacketGetData]

end Recvfrom

end TmkDcl.Capture
