import Mathlib.Algebra.Ring.Nat
import Mathlib.Tactic.Ring
import TmkDcl.Capture.Gvsp

/-!
# The two headers of GVSP packets (udpcapture/gvsp.h)

A packet has a header with a frame id of 16 bits or, where the bit of the extended ids is set, one with
a frame id of 64 bits. All fields come in network order.
-/

namespace TmkDcl.Capture

/-- A payload whose packet has a size that a `size_t` can hold. -/
structure Payload where
  bytes : Bytes
  fits : bytes.length + 20 < 2 ^ 64

/-- What a packet carries besides its frame id and its data. -/
structure PacketFields where
  packetType : Fin (2 ^ 16)
  contentType : Fin 0x7f
  packetId : Fin (2 ^ 24)

/-- A packet with the `struct gvsp_header` (`gvsp.h:64-68`). -/
def standardPacket (fields : PacketFields) (frameId : Fin (2 ^ 16)) (payload : Payload) : Bytes :=
  beBytes 2 fields.packetType ++ (beBytes 2 frameId ++
    (beBytes 4 (fields.contentType * 2 ^ 24 + fields.packetId) ++ payload.bytes))

/-- A packet with the `struct gvsp_extended_header` (`gvsp.h:70-76`); the low bytes of `packet_info`
are not used. -/
def extendedPacket (fields : PacketFields) (flags : Fin (2 ^ 16)) (unused : Fin (2 ^ 24))
    (frameId : Fin (2 ^ 16)) (payload : Payload) : Bytes :=
  beBytes 2 fields.packetType ++ (beBytes 2 flags ++
    (beBytes 4 ((0x80 + fields.contentType) * 2 ^ 24 + unused) ++
      (beBytes 8 frameId ++ (beBytes 4 fields.packetId ++ payload.bytes))))

/-- The data and the data size designate the payload. -/
def Designates (packet : Bytes) (payload : Payload) : Prop :=
  gvspPacketGetDataSize packet packet.length = payload.bytes.length ∧
    gvspPacketGetData packet = payload.bytes

/-- The getters give the same on both packets. -/
structure DecodeAlike (standard extended : Bytes) (payload : Payload) : Prop where
  frameId : gvspPacketGetFrameId extended = gvspPacketGetFrameId standard
  packetId : gvspPacketGetPacketId extended = gvspPacketGetPacketId standard
  contentType : gvspPacketGetContentType extended = gvspPacketGetContentType standard
  standard : Designates standard payload
  extended : Designates extended payload

/-! ### Fields -/

section Fields

variable {xs ys zs : Bytes} {pos n v : ℕ}

theorem field_append (hx : xs.length = pos) (hy : ys.length = n) : field (xs ++ (ys ++ zs)) pos n = ys := by
  rw [field, List.drop_left' hx, List.append_assoc, List.take_left' hy]

theorem beBytes_four (v : ℕ) (rest : Bytes) :
    (beBytes 4 v ++ rest).getD 0 0 = UInt8.ofNat (v / 2 ^ 24) := by
  have hdiv : v / 256 / 256 / 256 = v / 2 ^ 24 := by omega
  show UInt8.ofNat (v / 256 / 256 / 256) = _
  rw [hdiv]

theorem contentType_info {kind low : ℕ} (hkind : kind < 0x80) (hlow : low < 2 ^ 24) (bit : ℕ)
    (hbit : bit = 0 ∨ bit = 0x80) : (((bit + kind) * 2 ^ 24 + low) &&& gvspPacketInfoContentTypeMask) >>>
      gvspPacketInfoContentTypePos = kind := by
  have hmask : gvspPacketInfoContentTypeMask >>> gvspPacketInfoContentTypePos = 2 ^ 7 - 1 := by decide
  rw [Nat.shiftRight_and_distrib, hmask, Nat.and_two_pow_sub_one_eq_mod, Nat.shiftRight_eq_div_pow]
  show ((bit + kind) * 2 ^ 24 + low) / 2 ^ 24 % 2 ^ 7 = kind
  omega

/-- Reversed in eight bytes, a frame id of 16 bits is another number unless it is 0. -/
theorem leNat_beBytes_eight (hv : v < 2 ^ 16) : leNat (beBytes 8 v) = v ↔ v = 0 := by
  have hvalue : leNat (beBytes 8 v) = (v / 256 % 256) * 2 ^ 48 + (v % 256) * 2 ^ 56 := by
    have h1 : v / 256 / 256 = 0 := by omega
    simp only [beBytes, leBytes, List.reverse_cons, List.reverse_nil, List.nil_append,
      List.cons_append, leNat, h1, Nat.zero_div, UInt8.toNat_ofNat', Nat.zero_mod]
    ring
  rw [hvalue]
  omega

end Fields

/-! ### The getters -/

section Getters

variable (fields : PacketFields) (flags frameId : Fin (2 ^ 16)) (unused : Fin (2 ^ 24))
  (payload : Payload)

theorem getD_four {xs ys rest : Bytes} {v : ℕ} (hx : xs.length = 2) (hy : ys.length = 2) :
    (xs ++ (ys ++ (beBytes 4 v ++ rest))).getD 4 0 = UInt8.ofNat (v / 2 ^ 24) := by
  rw [← List.append_assoc, List.getD_append_right _ _ _ _ (by rw [List.length_append]; omega),
    List.length_append, hx, hy]
  exact beBytes_four v rest

/-- Only the high bit of the byte with the content type tells the headers apart. -/
theorem standardPacket_hasExtendedIds :
    gvspPacketHasExtendedIds (standardPacket fields frameId payload) = false := by
  have hinfo : (fields.contentType * 2 ^ 24 + fields.packetId : ℕ) / 2 ^ 24 = fields.contentType := by
    omega
  have hbit : ∀ kind : Fin 0x7f, (UInt8.ofNat kind &&& gvspPacketExtendedIdModeMask != 0) = false := by
    decide
  rw [gvspPacketHasExtendedIds, standardPacket, getD_four (beBytes_length _ _) (beBytes_length _ _),
    hinfo]
  exact hbit fields.contentType

theorem extendedPacket_hasExtendedIds :
    gvspPacketHasExtendedIds (extendedPacket fields flags unused frameId payload) = true := by
  have hinfo : ((0x80 + fields.contentType) * 2 ^ 24 + unused : ℕ) / 2 ^ 24 =
      0x80 + fields.contentType := by omega
  have hbit : ∀ kind : Fin 0x7f,
      (UInt8.ofNat (0x80 + kind) &&& gvspPacketExtendedIdModeMask != 0) = true := by
    decide
  rw [gvspPacketHasExtendedIds, extendedPacket, getD_four (beBytes_length _ _) (beBytes_length _ _),
    hinfo]
  exact hbit fields.contentType

theorem packetInfo_standard : packetInfo (standardPacket fields frameId payload) =
    fields.contentType * 2 ^ 24 + fields.packetId := by
  rw [packetInfo, standardPacket, ← List.append_assoc, field_append (by simp) (beBytes_length _ _),
    beNat_beBytes]
  omega

theorem packetInfo_extended :
    packetInfo (extendedPacket fields flags unused frameId payload) =
      (0x80 + fields.contentType) * 2 ^ 24 + unused := by
  rw [packetInfo, extendedPacket, ← List.append_assoc, field_append (by simp) (beBytes_length _ _),
    beNat_beBytes]
  omega

theorem standardPacket_decodes :
    gvspPacketGetFrameId (standardPacket fields frameId payload) = frameId ∧
    gvspPacketGetPacketId (standardPacket fields frameId payload) = fields.packetId ∧
    gvspPacketGetContentType (standardPacket fields frameId payload) = fields.contentType ∧
    Designates (standardPacket fields frameId payload) payload := by
  have hext := standardPacket_hasExtendedIds fields frameId payload
  have hnot : ¬ gvspPacketHasExtendedIds (standardPacket fields frameId payload) = true :=
    Bool.eq_false_iff.mp hext
  have hinfo := packetInfo_standard fields frameId payload
  have hsize : gvspHeaderSize (standardPacket fields frameId payload) = 8 := if_neg hnot
  have hlength : (standardPacket fields frameId payload).length = payload.bytes.length + 8 := by
    simp only [standardPacket, List.length_append, beBytes_length]
    omega
  refine ⟨?_, ?_, ?_, ?_, ?_⟩
  · rw [gvspPacketGetFrameId, if_neg hnot, standardPacket,
      field_append (beBytes_length _ _) (beBytes_length _ _), beNat_beBytes]
    exact Nat.mod_eq_of_lt frameId.isLt
  · have hmask : gvspPacketIdMask = 2 ^ 24 - 1 := rfl
    rw [gvspPacketGetPacketId, if_neg hnot, hinfo, hmask, Nat.and_two_pow_sub_one_eq_mod]
    omega
  · rw [gvspPacketGetContentType, hinfo]
    have hlt : (fields.contentType : ℕ) < 0x80 := by omega
    have hkind := contentType_info hlt fields.packetId.isLt 0 (Or.inl rfl)
    rwa [Nat.zero_add] at hkind
  · have hfits := payload.fits
    rw [gvspPacketGetDataSize, hsize, hlength]
    omega
  · rw [gvspPacketGetData, hsize, standardPacket, ← List.append_assoc, ← List.append_assoc]
    exact List.drop_left' (by simp)

/-- What is encoded with the extended header is decoded, but for the order of the frame id. -/
theorem extendedPacket_decodes :
    gvspPacketGetFrameId (extendedPacket fields flags unused frameId payload) =
      leNat (beBytes 8 frameId) ∧
    gvspPacketGetPacketId (extendedPacket fields flags unused frameId payload) = fields.packetId ∧
    gvspPacketGetContentType (extendedPacket fields flags unused frameId payload) =
      fields.contentType ∧
    Designates (extendedPacket fields flags unused frameId payload) payload := by
  have hext := extendedPacket_hasExtendedIds fields flags frameId unused payload
  have hsize : gvspHeaderSize (extendedPacket fields flags unused frameId payload) = 20 := if_pos hext
  have hlength : (extendedPacket fields flags unused frameId payload).length =
      payload.bytes.length + 20 := by
    simp only [extendedPacket, List.length_append, beBytes_length]
    omega
  refine ⟨?_, ?_, ?_, ?_, ?_⟩
  · rw [gvspPacketGetFrameId, if_pos hext, extendedPacket, ← List.append_assoc, ← List.append_assoc,
      field_append (by simp) (beBytes_length _ _)]
  · rw [gvspPacketGetPacketId, if_pos hext, extendedPacket, ← List.append_assoc, ← List.append_assoc,
      ← List.append_assoc, field_append (by simp) (beBytes_length _ _), beNat_beBytes]
    omega
  · rw [gvspPacketGetContentType, packetInfo_extended]
    exact contentType_info (by omega) unused.isLt 0x80 (Or.inr rfl)
  · have hfits := payload.fits
    rw [gvspPacketGetDataSize, hsize, hlength]
    omega
  · rw [gvspPacketGetData, hsize, extendedPacket, ← List.append_assoc, ← List.append_assoc,
      ← List.append_assoc, ← List.append_assoc]
    exact List.drop_left' (by simp)

/-- The two headers decode alike exactly for the frame id 0. -/
theorem headers_alike_iff : DecodeAlike (standardPacket fields frameId payload)
    (extendedPacket fields flags unused frameId payload) payload ↔ frameId = 0 := by
  obtain ⟨hframe, hpacket, hkind, hdata⟩ := standardPacket_decodes fields frameId payload
  obtain ⟨hframe', hpacket', hkind', hdata'⟩ :=
    extendedPacket_decodes fields flags frameId unused payload
  have hzero : frameId = 0 ↔ (frameId : ℕ) = 0 := Fin.ext_iff
  rw [hzero, ← leNat_beBytes_eight frameId.isLt]
  constructor
  · intro h
    exact hframe'.symm.trans (h.frameId.trans hframe)
  · intro h
    exact ⟨hframe'.trans (h.trans hframe.symm), hpacket'.trans hpacket.symm,
      hkind'.trans hkind.symm, hdata, hdata'⟩

/-- The first data block of frame 1, with one byte. -/
theorem not_headers_alike : ¬ ∀ (fields : PacketFields) (flags frameId : Fin (2 ^ 16))
    (unused : Fin (2 ^ 24)) (payload : Payload), DecodeAlike (standardPacket fields frameId payload)
      (extendedPacket fields flags unused frameId payload) payload := by
  intro hall
  have halike := hall ⟨0, 3, 1⟩ 0 1 0 ⟨[65], by decide⟩
  exact absurd halike.frameId (by decide)

end Getters

end TmkDcl.Capture
