import TmkDcl.Capture.GigeCamera

/-!
# The bounds of a camera's stream (libcapture/src/gige_camera.c)

The size of a block comes from the size of the packet buffer and the kind of its header, not from
what `recvfrom` returned, and nothing compares `buffer_size` with `MAX_FRAME_SIZE`.
-/

namespace TmkDcl.Capture.GigeCamera

/-- A datagram with the packet buffer after `recvfrom`. -/
structure Reception where
  datagram : Bytes
  packet : Bytes

def Reception.frameId (r : Reception) : ℕ := gvspPacketGetFrameId r.packet

/-- The packet buffer is used again, so that it keeps the end of an earlier packet. -/
def receptions (packet : Bytes) : List Bytes → List Reception
  | [] => []
  | d :: ds => ⟨d, recvfrom packet d⟩ :: receptions (recvfrom packet d) ds

theorem receptions_concat (packet : Bytes) (ds : List Bytes) (d : Bytes) :
    receptions packet (ds ++ [d]) =
      receptions packet ds ++ [⟨d, recvfrom (ds.foldl recvfrom packet) d⟩] := by
  induction ds generalizing packet with
  | nil => rfl
  | cons e ds ih =>
    rw [List.cons_append, receptions, receptions, ih, List.foldl_cons, List.cons_append]

/-- The thread ignores what comes before the first frame id other than 0. -/
def counted (rs : List Reception) : List Reception := rs.dropWhile (·.frameId == 0)

/-- The size of the block in a packet buffer of `size` bytes. -/
def blockSize (size : ℕ) (r : Reception) : ℕ :=
  if isDataBlock r.packet then size - gvspHeaderSize r.packet else 0

def framesSize (size : ℕ) (rs : List Reception) : ℕ := (rs.map (blockSize size)).sum

/-- A data block fills the packet buffer, or has no data. -/
def Reception.Fills (size : ℕ) (r : Reception) : Prop :=
  isDataBlock r.packet = true → gvspHeaderSize r.packet ≤ size ∧
    (size = gvspHeaderSize r.packet ∨ size ≤ r.datagram.length)

/-- Every data block fills the packet buffer, and the packets of one frame id that arrive one
after another fit in an iframe. -/
structure Suits (size : ℕ) (rs : List Reception) : Prop where
  blocks : ∀ r ∈ rs, r.Fills size
  frames : ∀ g id, g <:+: rs → (∀ r ∈ g, r.frameId = id) → framesSize size g ≤ maxFrameSize

section Sizes

variable {size id : ℕ} {r : Reception} {g g' l : List Reception}

theorem framesSize_append : framesSize size (g ++ g') = framesSize size g + framesSize size g' := by
  rw [framesSize, List.map_append, List.sum_append, framesSize, framesSize]

theorem framesSize_concat : framesSize size (g ++ [r]) = framesSize size g + blockSize size r :=
  framesSize_append

theorem framesSize_suffix (h : g <:+ g') : framesSize size g ≤ framesSize size g' := by
  obtain ⟨t, rfl⟩ := h
  rw [framesSize_append]
  exact Nat.le_add_left ..

/-- The packets that arrived last with one frame id. -/
structure LastFrame (l : List Reception) (id : ℕ) (g : List Reception) : Prop where
  suffix : g <:+ l
  nonempty : l ≠ [] → g ≠ []
  sameId : ∀ r ∈ g, r.frameId = id
  longest : ∀ g', g' <:+ l → (∀ r ∈ g', r.frameId = id) → g' <:+ g

theorem LastFrame.nil : LastFrame [] id [] where
  suffix := List.suffix_refl _
  nonempty := fun h => h
  sameId := fun _ hr => (List.not_mem_nil hr).elim
  longest := fun _ hg _ => hg

theorem LastFrame.concat_same (h : LastFrame l id g) (hr : r.frameId = id) :
    LastFrame (l ++ [r]) id (g ++ [r]) where
  suffix := List.suffix_append_self_iff.mpr h.suffix
  nonempty := fun _ => List.append_ne_nil_of_right_ne_nil _ (List.cons_ne_nil _ _)
  sameId := by
    intro x hx
    rcases List.mem_append.mp hx with hx | hx
    · exact h.sameId x hx
    · rw [List.mem_singleton.mp hx]
      exact hr
  longest := by
    intro g' hg' hid
    rcases List.suffix_concat_iff.mp hg' with hg' | ⟨t, ht, hsuffix⟩
    · rw [hg']
      exact List.nil_suffix
    · rw [ht] at hid ⊢
      have hlong := h.longest t hsuffix fun x hx => hid x (List.mem_append_left _ hx)
      exact List.suffix_append_self_iff.mpr hlong

/-- Two runs of last packets have a packet in common, so that they have one id. -/
theorem LastFrame.id_eq (h : LastFrame l id g) {id' : ℕ} (hg' : g' <:+ l) (hne : g' ≠ [])
    (hid : ∀ r ∈ g', r.frameId = id') : id' = id := by
  have hl : l ≠ [] := by
    intro hl
    rw [hl] at hg'
    exact hne (List.suffix_nil.mp hg')
  rcases List.suffix_or_suffix_of_suffix hg' h.suffix with hsub | hsub
  · obtain ⟨x, hx⟩ := List.exists_mem_of_ne_nil _ hne
    exact (hid x hx).symm.trans (h.sameId x (hsub.mem hx))
  · obtain ⟨x, hx⟩ := List.exists_mem_of_ne_nil _ (h.nonempty hl)
    exact (hid x (hsub.mem hx)).symm.trans (h.sameId x hx)

theorem LastFrame.concat_other (h : LastFrame l id g) (hr : r.frameId ≠ id) :
    LastFrame (l ++ [r]) r.frameId [r] where
  suffix := List.suffix_append ..
  nonempty := fun _ => List.cons_ne_nil _ _
  sameId := by
    intro x hx
    rw [List.mem_singleton.mp hx]
  longest := by
    intro g' hg' hid
    rcases List.suffix_concat_iff.mp hg' with hg' | ⟨t, ht, hsuffix⟩
    · rw [hg']
      exact List.nil_suffix
    · rw [ht] at hid ⊢
      have ht : t = [] := by
        by_contra hne
        exact hr (h.id_eq hsuffix hne fun x hx => hid x (List.mem_append_left _ hx))
      rw [ht]
      exact List.suffix_refl _

theorem Suits.nil : Suits size [] where
  blocks := fun _ hr => (List.not_mem_nil hr).elim
  frames := by
    intro g id hg _
    rw [List.infix_nil.mp hg]
    exact Nat.zero_le _

theorem Suits.init (h : Suits size (l ++ [r])) : Suits size l where
  blocks := fun x hx => h.blocks x (List.mem_append_left _ hx)
  frames := fun g' id' hg' => h.frames g' id' (hg'.trans (List.prefix_append l [r]).isInfix)

/-- With another packet the frame that it belongs to has to fit. -/
theorem suits_concat (h : LastFrame (l ++ [r]) r.frameId (g ++ [r])) : Suits size (l ++ [r]) ↔
    Suits size l ∧ r.Fills size ∧ framesSize size (g ++ [r]) ≤ maxFrameSize := by
  constructor
  · intro hs
    refine ⟨hs.init, ?_, ?_⟩
    · exact hs.blocks r (List.mem_append_right _ List.mem_cons_self)
    · exact hs.frames _ _ h.suffix.isInfix h.sameId
  · intro ⟨hs, hfills, hfits⟩
    refine ⟨?_, ?_⟩
    · intro x hx
      rcases List.mem_append.mp hx with hx | hx
      · exact hs.blocks x hx
      · rw [List.mem_singleton.mp hx]
        exact hfills
    · intro g' id' hg' hid
      rcases List.infix_concat_iff.mp hg' with hg' | hg'
      · rcases List.suffix_concat_iff.mp hg' with hnil | ⟨t, ht, -⟩
        · rw [hnil]
          exact Nat.zero_le _
        · have hr : r.frameId = id' := hid r (by rw [ht]; simp)
          exact (framesSize_suffix (h.longest g' hg' (hr ▸ hid))).trans hfits
      · exact hs.frames g' id' hg' hid

end Sizes

/-! ### One datagram -/

section Step

variable {packetSize : BitVec 32} {st : Thread packetSize} {packet d : Bytes} {r : Reception}
  {l : List Reception}

/-- The thread adds the packet in its buffer to the iframe. -/
def Thread.copies (st : Thread packetSize) : Bool :=
  st.frame.isStarted && isDataBlock st.packet &&
    !(decide (gvspPacketGetPacketId st.packet < st.frame.nPackets) &&
      st.frame.packetData.getD (gvspPacketGetPacketId st.packet) false)

/-- The thread when it comes to add the packet of a datagram. -/
def Thread.arrived (st : Thread packetSize) (d : Bytes) : Thread packetSize := (st.recv d).nextFrame

/-- The size of a block does not underflow, the iframe grows by no more than the data that was
received, and nothing runs over it. -/
structure StepInBounds (st : Thread packetSize) (d : Bytes) : Prop where
  dataSize : (st.arrived d).copies = true → gvspHeaderSize (st.arrived d).packet ≤ packetSize.toNat
  received : (st.receive d).buffer.length ≤ (st.arrived d).buffer.length +
    (min d.length packetSize.toNat - gvspHeaderSize (st.arrived d).packet)
  bufferSize : (st.receive d).overrun = false

theorem Holds.copies {id : ℕ} {handed : List IframeData} {buffer : Bytes}
    (h : Holds st id handed buffer) : st.copies = isDataBlock st.packet := by
  rw [Thread.copies, h.isStarted, h.nPackets, Bool.true_and]
  simp

theorem receive_eq (h : st.overrun = false) : st.receive d = (st.arrived d).addPacket :=
  if_neg (Bool.eq_false_iff.mp h)

theorem addPacket_packet : st.addPacket.packet = st.packet := by
  simp only [Thread.addPacket, Thread.copyBlock]
  split_ifs <;> rfl

theorem added_blockSize (h : st.packet = r.packet) :
    (added st.packet).length = blockSize packetSize.toNat r := by
  rw [added, blockSize, h]
  split
  · rw [gvspPacketGetData, List.length_drop, ← h, st.packet_length]
  · rfl

/-- The thread has received the packets `l` of the frames that it takes. -/
structure Tracks (st : Thread packetSize) (packet : Bytes) (l : List Reception) : Prop where
  packet_eq : st.packet = packet
  overrun : st.overrun = false
  ignores : l = [] → st.frame.isStarted = false ∧ st.lastFrameId = 0
  holds : l ≠ [] → Holds st st.lastFrameId st.handed st.buffer
  frame : ∃ g, LastFrame l st.lastFrameId g ∧ st.buffer.length = framesSize packetSize.toNat g

theorem Tracks.ignored (h : Tracks st packet []) (hid : gvspPacketGetFrameId (recvfrom packet d) = 0) :
    StepInBounds st d ∧ Tracks (st.receive d) (recvfrom packet d) [] := by
  obtain ⟨hs, hlast⟩ := h.ignores rfl
  have hns : ¬ (st.recv d).frame.isStarted = true := Bool.eq_false_iff.mp hs
  have hsame : gvspPacketGetFrameId (st.recv d).packet = (st.recv d).lastFrameId := by
    show gvspPacketGetFrameId (recvfrom st.packet d) = st.lastFrameId
    rw [h.packet_eq, hid, hlast]
  have harrived : st.arrived d = st.recv d := nextFrame_same hsame
  have hadd : (st.recv d).addPacket = { st.recv d with nIgnored := st.nIgnored + 1 } := if_neg hns
  have hreceive : st.receive d = { st.recv d with nIgnored := st.nIgnored + 1 } := by
    rw [receive_eq h.overrun, harrived, hadd]
  constructor
  · refine ⟨?_, ?_, ?_⟩
    · intro hc
      rw [harrived, Thread.copies, Bool.eq_false_iff.mpr hns] at hc
      exact absurd hc (by simp)
    · rw [hreceive, harrived]
      exact Nat.le_add_right ..
    · rw [hreceive]
      exact h.overrun
  · rw [hreceive]
    refine ⟨?_, h.overrun, fun _ => ⟨hs, hlast⟩, fun hl => absurd rfl hl, h.frame⟩
    rw [← h.packet_eq]
    rfl

theorem Tracks.arrived (h : Tracks st packet l) (hr : r = ⟨d, recvfrom packet d⟩)
    (hc : l ≠ [] ∨ r.frameId ≠ 0) :
    ∃ g handed, LastFrame (l ++ [r]) r.frameId (g ++ [r]) ∧
      Holds (st.arrived d) r.frameId handed (st.arrived d).buffer ∧
      (st.arrived d).packet = r.packet ∧ (st.arrived d).overrun = false ∧
      (st.arrived d).buffer.length = framesSize packetSize.toNat g := by
  obtain ⟨g, hg, hbuffer⟩ := h.frame
  have hpacket : (st.recv d).packet = r.packet := by rw [hr, ← h.packet_eq]; rfl
  by_cases hid : r.frameId = st.lastFrameId
  · have hl : l ≠ [] := by
      intro hl
      rcases hc with hc | hc
      · exact hc hl
      · exact hc (hid.trans (h.ignores hl).2)
    have hsame : st.arrived d = st.recv d := nextFrame_same (by rw [hpacket]; exact hid)
    have hholds := h.holds hl
    rw [hsame, hid]
    exact ⟨g, st.handed, hg.concat_same hid, ⟨hholds.last, hholds.isStarted, hholds.nPackets,
      hholds.handed, hholds.overrun, hholds.buffer⟩, hpacket, h.overrun, hbuffer⟩
  · have hne : gvspPacketGetFrameId (st.recv d).packet ≠ (st.recv d).lastFrameId := by
      rw [hpacket]
      exact hid
    have hrecv : (st.recv d).overrun = false := h.overrun
    obtain ⟨hholds, hpacket', hbuffer'⟩ := nextFrame_other hrecv hne
    rw [hpacket, ← hbuffer'] at hholds
    refine ⟨[], _, hg.concat_other hid, hholds, hpacket'.trans hpacket, ?_, ?_⟩
    · rw [Thread.arrived, hholds.overrun, hbuffer']
      rfl
    · rw [Thread.arrived, hbuffer']
      rfl

theorem Tracks.next (h : Tracks st packet l) (hr : r = ⟨d, recvfrom packet d⟩)
    (hc : l ≠ [] ∨ r.frameId ≠ 0) (hstep : StepInBounds st d) :
    Tracks (st.receive d) r.packet (l ++ [r]) := by
  obtain ⟨g, handed, hg, hholds, hpacket, -, hbuffer⟩ := h.arrived hr hc
  have hadd := addPacket_holds hholds fun hb => hstep.dataSize (hholds.copies.trans hb)
  rw [← receive_eq h.overrun] at hadd
  have hfits : ((st.arrived d).buffer ++ added (st.arrived d).packet).length ≤ maxFrameSize := by
    have hover := hadd.overrun.symm.trans hstep.bufferSize
    exact Nat.le_of_not_lt (of_decide_eq_false hover)
  have hbuffer' := hadd.buffer hfits
  refine ⟨?_, hstep.bufferSize, ?_, ?_, ?_⟩
  · rw [receive_eq h.overrun, addPacket_packet, hpacket]
  · exact fun hl => absurd hl (by simp)
  · intro _
    refine ⟨rfl, hadd.isStarted, hadd.nPackets, rfl, ?_, fun _ => rfl⟩
    rw [hstep.bufferSize, hbuffer', decide_eq_false (Nat.not_lt.mpr hfits)]
  · rw [hadd.last]
    refine ⟨_, hg, ?_⟩
    rw [hbuffer', List.length_append, hbuffer, added_blockSize hpacket, framesSize_concat]

theorem Tracks.step_iff (h : Tracks st packet l) (hr : r = ⟨d, recvfrom packet d⟩)
    (hc : l ≠ [] ∨ r.frameId ≠ 0) :
    Suits packetSize.toNat (l ++ [r]) ↔ Suits packetSize.toNat l ∧ StepInBounds st d := by
  obtain ⟨g, handed, hg, hholds, hpacket, -, hbuffer⟩ := h.arrived hr hc
  have hsize : (added (st.arrived d).packet).length = blockSize packetSize.toNat r :=
    added_blockSize hpacket
  rw [suits_concat hg, framesSize_concat, ← hbuffer, ← hsize, ← List.length_append]
  refine and_congr_right fun _ => ?_
  have hd : r.datagram = d := by rw [hr]
  constructor
  · intro ⟨hfills, hfits⟩
    have hadd := addPacket_holds hholds fun hb => hpacket ▸ (hfills (hpacket ▸ hb)).1
    rw [← receive_eq h.overrun] at hadd
    refine ⟨?_, ?_, ?_⟩
    · intro hcopies
      rw [hpacket]
      rw [hholds.copies, hpacket] at hcopies
      exact (hfills hcopies).1
    · rw [hadd.buffer hfits, List.length_append, hsize, hpacket, blockSize, ← hd]
      refine Nat.add_le_add_left ?_ _
      split
      · rename_i hb
        have hle := hfills hb
        omega
      · exact Nat.zero_le _
    · rw [hadd.overrun, decide_eq_false (Nat.not_lt.mpr hfits)]
  · intro hstep
    have hadd := addPacket_holds hholds fun hb => hstep.dataSize (hholds.copies.trans hb)
    rw [← receive_eq h.overrun] at hadd
    have hover := hadd.overrun.symm.trans hstep.bufferSize
    have hfits := Nat.le_of_not_lt (of_decide_eq_false hover)
    refine ⟨?_, hfits⟩
    intro hb
    have hle := hstep.dataSize (hholds.copies.trans (hpacket ▸ hb))
    have hreceived := hstep.received
    rw [hadd.buffer hfits, List.length_append, hsize, blockSize, if_pos hb, hpacket, ← hd] at hreceived
    rw [hpacket] at hle
    exact ⟨hle, by omega⟩

end Step

/-! ### A run -/

/-- Every datagram is received in bounds. -/
def RunInBounds {packetSize : BitVec 32} (st : Thread packetSize) (ds : List Bytes) : Prop :=
  ∀ before d, before ++ [d] <+: ds → StepInBounds (st.run before) d

section Run

variable {packetSize : BitVec 32} {st : Thread packetSize} {packet d : Bytes} {ds : List Bytes}

theorem runInBounds_concat :
    RunInBounds st (ds ++ [d]) ↔ RunInBounds st ds ∧ StepInBounds (st.run ds) d := by
  constructor
  · intro h
    constructor
    · exact fun before e hp => h before e (hp.trans (List.prefix_append ..))
    · exact h ds d (List.prefix_refl _)
  · intro ⟨h, hd⟩ before e hp
    rcases List.prefix_concat_iff.mp hp with heq | hp
    · obtain ⟨hbefore, he⟩ := List.append_inj' heq rfl
      rw [hbefore, List.singleton_inj.mp he]
      exact hd
    · exact h before e hp

theorem start_tracks (h : packet.length = packetSize.toNat) : Tracks (start packet h) packet [] where
  packet_eq := rfl
  overrun := rfl
  ignores := fun _ => ⟨rfl, rfl⟩
  holds := fun hl => absurd rfl hl
  frame := ⟨[], .nil, rfl⟩

theorem counted_ignored {rs : List Reception} {r : Reception} (h : counted rs = [])
    (hr : r.frameId = 0) : counted (rs ++ [r]) = [] := by
  rw [counted] at h ⊢
  rw [List.dropWhile_append, h, List.isEmpty_nil, if_pos rfl, List.dropWhile_cons_of_pos (by simpa using hr)]
  rfl

theorem counted_taken {rs : List Reception} {r : Reception} (h : counted rs ≠ [] ∨ r.frameId ≠ 0) :
    counted (rs ++ [r]) = counted rs ++ [r] := by
  rw [counted, counted, List.dropWhile_append]
  split
  · rename_i hempty
    have hnil : counted rs = [] := List.isEmpty_iff.mp hempty
    have hr : r.frameId ≠ 0 := h.resolve_left (not_not_intro hnil)
    rw [List.isEmpty_iff.mp hempty, List.dropWhile_cons_of_neg (by simpa using hr), List.nil_append]
  · rfl

/-- A run is in bounds if what the thread takes suits. -/
theorem start_run (h : packet.length = packetSize.toNat) (ds : List Bytes) :
    (RunInBounds (start packet h) ds ↔ Suits packetSize.toNat (counted (receptions packet ds))) ∧
    (RunInBounds (start packet h) ds → Tracks ((start packet h).run ds) (ds.foldl recvfrom packet)
      (counted (receptions packet ds))) := by
  induction ds using List.reverseRecOn with
  | nil =>
    refine ⟨iff_of_true ?_ .nil, fun _ => start_tracks h⟩
    intro before d hp
    exact absurd (List.prefix_nil.mp hp) (by simp)
  | append_singleton ds d ih =>
    obtain ⟨hiff, htracks⟩ := ih
    rw [runInBounds_concat, receptions_concat, run_concat, List.foldl_concat]
    by_cases hc : counted (receptions packet ds) ≠ [] ∨
        Reception.frameId ⟨d, recvfrom (ds.foldl recvfrom packet) d⟩ ≠ 0
    · rw [counted_taken hc]
      constructor
      · by_cases hrun : RunInBounds (start packet h) ds
        · rw [(htracks hrun).step_iff rfl hc, ← hiff]
        · refine iff_of_false (fun hr => hrun hr.1) fun hs => hrun (hiff.mpr ?_)
          exact hs.init
      · exact fun ⟨hrun, hstep⟩ => (htracks hrun).next rfl hc hstep
    · rw [not_or, not_not, not_not] at hc
      obtain ⟨hnil, hid⟩ := hc
      rw [counted_ignored hnil hid]
      have hignored := fun hrun => (hnil ▸ htracks hrun).ignored hid
      have hsuits : RunInBounds (start packet h) ds := hiff.mpr (hnil ▸ .nil)
      exact ⟨iff_of_true ⟨hsuits, (hignored hsuits).1⟩ .nil, fun hr => (hignored hr.1).2⟩

/-- The size of the packet buffer does not underflow and every datagram is received in bounds. -/
structure InBounds (packetSize : BitVec 32) (packet : Bytes)
    (h : packet.length = (gvspBufferSize packetSize).toNat) (ds : List Bytes) : Prop where
  bufferSize : packetSize.toNat =
    (gvspBufferSize packetSize).toNat + (ipHeaderSize.toNat + udpHeaderSize.toNat)
  run : RunInBounds (start packet h) ds

theorem bufferSize_iff (packetSize : BitVec 32) : packetSize.toNat =
    (gvspBufferSize packetSize).toNat + (ipHeaderSize.toNat + udpHeaderSize.toNat) ↔
    ipHeaderSize.toNat + udpHeaderSize.toNat ≤ packetSize.toNat := by
  have hip : ipHeaderSize.toNat = 20 := rfl
  have hudp : udpHeaderSize.toNat = 8 := rfl
  rw [gvspBufferSize, BitVec.toNat_sub, BitVec.toNat_sub, hip, hudp]
  have := packetSize.isLt
  omega

/-- The stream of a camera stays in bounds exactly if the packets have room for their headers, the
data blocks fill the packet buffer and the frames fit in an iframe. -/
theorem gvsp_inBounds_iff (packetSize : BitVec 32) (packet : Bytes)
    (h : packet.length = (gvspBufferSize packetSize).toNat) (ds : List Bytes) :
    InBounds packetSize packet h ds ↔
      ipHeaderSize.toNat + udpHeaderSize.toNat ≤ packetSize.toNat ∧
      Suits (gvspBufferSize packetSize).toNat (counted (receptions packet ds)) := by
  rw [← bufferSize_iff, ← (start_run h ds).1]
  exact ⟨fun hb => ⟨hb.bufferSize, hb.run⟩, fun ⟨hsize, hrun⟩ => ⟨hsize, hrun⟩⟩

/-- A block of four bytes fills the packet buffer of a camera with packets of 40 bytes. -/
theorem gvsp_inBounds_full :
    InBounds 40 (List.replicate 12 0) rfl [gvspPacket 1 3 1 [1, 2, 3, 4]] := by
  refine (gvsp_inBounds_iff _ _ _ _).mpr ⟨by decide, ?_, ?_⟩
  · intro r hr
    rw [List.mem_singleton.mp hr]
    exact fun _ => by decide
  · intro g id hg _
    rcases List.sublist_singleton.mp hg.sublist with hg | hg
    · rw [hg]
      exact Nat.zero_le _
    · rw [hg]
      decide

/-- A block of one byte adds four to the iframe. -/
theorem not_gvsp_inBounds : ¬ InBounds 40 (List.replicate 12 0) rfl [gvspPacket 1 3 1 [65]] := by
  intro h
  have hreceived := (h.run [] _ (List.prefix_refl _)).received
  revert hreceived
  decide +kernel

end Run

end TmkDcl.Capture.GigeCamera
