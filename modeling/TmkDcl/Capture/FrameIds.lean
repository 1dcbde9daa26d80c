import Mathlib.Data.List.Induction
import TmkDcl.Capture.GigeCamera

/-!
# The ids of the frames that are handed over (libcapture/src/gige_camera.c)

A frame ends when a packet with another frame id arrives, be it a later one or a packet of an
earlier frame that is late. So the ids that are handed over are those of the groups of packets
with one id, the last group left out.
-/

namespace TmkDcl.Capture.GigeCamera

/-- A packet that is followed by one of another frame has the highest id so far. -/
def IdsInOrder (ids : List ℕ) : Prop :=
  ∀ pre a post, ids = pre ++ a :: post → (∃ b ∈ post, b ≠ a) → ∀ c ∈ pre, c ≤ a

section Order

variable {ids pre post : List ℕ} {a b : ℕ}

theorem split_concat (h : ids ++ [b] = pre ++ a :: post) :
    post = [] ∨ ∃ post', post = post' ++ [b] ∧ ids = pre ++ a :: post' := by
  rcases List.eq_nil_or_concat post with rfl | ⟨post', x, rfl⟩
  · exact .inl rfl
  · rw [List.concat_eq_append, ← List.cons_append, ← List.append_assoc] at h
    obtain ⟨h1, h2⟩ := List.append_inj' h rfl
    cases h2
    exact .inr ⟨post', List.concat_eq_append, h1⟩

theorem IdsInOrder.of_concat (h : IdsInOrder (ids ++ [b])) : IdsInOrder ids := by
  rintro pre a post rfl ⟨c, hc, hne⟩
  refine h pre a (post ++ [b]) ?_ ⟨c, List.mem_append_left _ hc, hne⟩
  rw [List.append_assoc, List.cons_append]

theorem idsInOrder_nil : IdsInOrder [] := by
  intro pre a post hsplit
  exact absurd hsplit.symm (List.append_ne_nil_of_right_ne_nil _ (List.cons_ne_nil _ _))

theorem idsInOrder_singleton (a : ℕ) : IdsInOrder [a] := by
  rintro pre b post hsplit ⟨c, hc, -⟩
  have hconcat : [] ++ [a] = pre ++ b :: post := hsplit
  rcases split_concat hconcat with rfl | ⟨post', -, hnil⟩
  · exact (List.not_mem_nil hc).elim
  · exact absurd hnil.symm (List.append_ne_nil_of_right_ne_nil _ (List.cons_ne_nil _ _))

theorem last_after (h : ids ++ [b] = pre ++ a :: post) : a = b ∨ b ∈ post := by
  rcases split_concat h with rfl | ⟨post', rfl, -⟩
  · exact .inl (List.cons.inj (List.append_inj' h rfl).2).1.symm
  · exact .inr (List.mem_append_right _ (List.mem_singleton_self b))

theorem idsInOrder_same : IdsInOrder (ids ++ [a] ++ [a]) ↔ IdsInOrder (ids ++ [a]) := by
  refine ⟨.of_concat, fun h => ?_⟩
  rintro pre x post hsplit ⟨c, hc, hne⟩
  rcases split_concat hsplit with rfl | ⟨post', rfl, hids⟩
  · exact (List.not_mem_nil hc).elim
  · refine h pre x post' hids ?_
    rcases List.mem_append.mp hc with hc | hc
    · exact ⟨c, hc, hne⟩
    · cases List.mem_singleton.mp hc
      exact ⟨a, (last_after hids).resolve_left hne.symm, hne⟩

theorem idsInOrder_other (hne : b ≠ a) :
    IdsInOrder (ids ++ [a] ++ [b]) ↔ IdsInOrder (ids ++ [a]) ∧ ∀ c ∈ ids, c ≤ a := by
  constructor
  · intro h
    exact ⟨h.of_concat, h ids a [b] (List.append_assoc ..) ⟨b, List.mem_singleton_self b, hne⟩⟩
  · rintro ⟨h, hle⟩ pre x post hsplit ⟨c, hc, hcne⟩
    rcases split_concat hsplit with rfl | ⟨post', rfl, hids⟩
    · exact (List.not_mem_nil hc).elim
    by_cases hpost : ∃ y ∈ post', y ≠ x
    · exact h pre x post' hids hpost
    · have hx : x = a := by
        rcases last_after hids with hx | hx
        · exact hx
        · by_contra hxa
          exact hpost ⟨a, hx, Ne.symm hxa⟩
      intro y hy
      have hmem : y ∈ ids ++ [a] := hids ▸ List.mem_append_left _ hy
      rcases List.mem_append.mp hmem with hmem | hmem
      · exact hx ▸ hle y hmem
      · rw [List.mem_singleton.mp hmem, hx]

theorem increasing_concat (hlast : ∀ x ∈ ids.getLast?, x ≠ a) :
    (ids ++ [a]).Pairwise (· < ·) ↔ ids.Pairwise (· < ·) ∧ ∀ x ∈ ids, x ≤ a := by
  rw [List.pairwise_append]
  constructor
  · rintro ⟨hids, -, hlt⟩
    exact ⟨hids, fun x hx => (hlt x hx a (List.mem_singleton_self a)).le⟩
  · rintro ⟨hids, hle⟩
    refine ⟨hids, List.pairwise_singleton _ _, fun x hx y hy => ?_⟩
    rw [List.mem_singleton.mp hy]
    rcases List.eq_nil_or_concat ids with rfl | ⟨rest, z, rfl⟩
    · exact (List.not_mem_nil hx).elim
    · rw [List.concat_eq_append] at *
      have hz : z < a := Nat.lt_of_le_of_ne (hle z (List.mem_append_right _ (List.mem_singleton_self z)))
        (hlast z (by simp))
      rcases List.mem_append.mp hx with hx | hx
      · exact ((List.pairwise_append.mp hids).2.2 x hx z (List.mem_singleton_self z)).trans hz
      · exact List.mem_singleton.mp hx ▸ hz

end Order

variable {packetSize : BitVec 32}

/-- What a packet adds to `buffer_size`. -/
def grows (packetSize : BitVec 32) (datagram : Bytes) : ℕ :=
  if isDataBlock datagram then packetSize.toNat - gvspHeaderSize datagram else 0

/-- Packets of one frame in a row do not fill `iframe.buffer` beyond its end. -/
def FramesFit (packetSize : BitVec 32) (datagrams : List Bytes) : Prop :=
  ∀ pre run, pre ++ run <+: datagrams →
    (∀ d ∈ run, ∀ e ∈ run, gvspPacketGetFrameId d = gvspPacketGetFrameId e) →
    (run.map (grows packetSize)).sum ≤ maxFrameSize

/-- The ids passed to `new_frame_action` increase strictly, and all blocks were copied into
`iframe.buffer`. -/
def IdsIncrease (st : Thread packetSize) : Prop :=
  st.overrun = false ∧ (st.handed.map IframeData.frameId).Pairwise (· < ·)

/-- The thread after the packets `pre ++ run`, of which `run` are those of the frame that it
receives. -/
structure Follows (st : Thread packetSize) (pre run : List Bytes) (last : ℕ)
    (handed : List IframeData) (buffer : Bytes) : Prop where
  holds : Holds st last handed buffer
  run_ne : run ≠ []
  run_ids : ∀ d ∈ run, gvspPacketGetFrameId d = last
  pre_last : ∀ d ∈ pre.getLast?, gvspPacketGetFrameId d ≠ last
  grown : buffer.length = (run.map (grows packetSize)).sum
  handed_last : ∀ id ∈ (handed.map IframeData.frameId).getLast?, id ≠ last
  handed_ids : ∀ id, id ∈ pre.map gvspPacketGetFrameId ↔ id ∈ handed.map IframeData.frameId
  order : (handed.map IframeData.frameId).Pairwise (· < ·) ↔
    IdsInOrder ((pre ++ run).map gvspPacketGetFrameId)

section Run

variable {st : Thread packetSize} {pre run datagrams : List Bytes} {last : ℕ}
  {handed : List IframeData} {buffer datagram : Bytes}

theorem added_length (hd : HeaderReceived packetSize.toNat datagram) {packet : Bytes}
    (hp : packet.length = packetSize.toNat) :
    (added (recvfrom packet datagram)).length = grows packetSize datagram := by
  have hpart : Part packetSize datagram (added (recvfrom packet datagram)) := ⟨packet, hp, rfl⟩
  rw [grows]
  split
  · rename_i hb
    exact hpart.block_length hd hb
  · rename_i hb
    rw [hpart.other hd (Bool.eq_false_iff.mpr hb), List.length_nil]

theorem ids_concat : (datagrams ++ [datagram]).map gvspPacketGetFrameId =
    datagrams.map gvspPacketGetFrameId ++ [gvspPacketGetFrameId datagram] := by
  rw [List.map_append, List.map_singleton]

theorem Follows.ids_split (h : Follows st pre run last handed buffer) :
    ∃ run', (pre ++ run).map gvspPacketGetFrameId =
      pre.map gvspPacketGetFrameId ++ run' ++ [last] ∧ ∀ id ∈ run', id = last := by
  rcases List.eq_nil_or_concat run with hnil | ⟨run', d, hrun⟩
  · exact absurd hnil h.run_ne
  · rw [List.concat_eq_append] at hrun
    subst hrun
    refine ⟨run'.map gvspPacketGetFrameId, ?_, ?_⟩
    · rw [List.map_append, List.map_append, List.map_singleton,
        h.run_ids d (List.mem_append_right _ (List.mem_singleton_self d)), List.append_assoc]
    · intro id hid
      obtain ⟨e, he, rfl⟩ := List.mem_map.mp hid
      exact h.run_ids e (List.mem_append_left _ he)

theorem Follows.same (h : Follows st pre run last handed buffer)
    (hd : HeaderReceived packetSize.toNat datagram)
    (heq : gvspPacketGetFrameId datagram = last) :
    Follows (st.receive datagram) pre (run ++ [datagram]) last handed
      (buffer ++ added (recvfrom st.packet datagram)) where
  holds := h.holds.receive_same hd heq
  run_ne := List.append_ne_nil_of_right_ne_nil _ (List.cons_ne_nil _ _)
  run_ids := fun d hm => (List.mem_append.mp hm).elim (h.run_ids d) fun hm =>
    List.mem_singleton.mp hm ▸ heq
  pre_last := h.pre_last
  grown := by
    rw [List.length_append, h.grown, added_length hd st.packet_length, List.map_append,
      List.sum_append, List.map_singleton, List.sum_singleton]
  handed_last := h.handed_last
  handed_ids := h.handed_ids
  order := by
    obtain ⟨run', hids, -⟩ := h.ids_split
    rw [h.order, ← List.append_assoc, ids_concat, hids, heq, idsInOrder_same]

theorem Follows.other (h : Follows st pre run last handed buffer)
    (hle : buffer.length ≤ maxFrameSize) (hd : HeaderReceived packetSize.toNat datagram)
    (hne : gvspPacketGetFrameId datagram ≠ last) :
    Follows (st.receive datagram) (pre ++ run) [datagram] (gvspPacketGetFrameId datagram)
      (handed ++ [⟨last, buffer⟩]) (added (recvfrom st.packet datagram)) := by
  obtain ⟨run', hids, hrun'⟩ := h.ids_split
  have hmem : ∀ id, id ∈ pre.map gvspPacketGetFrameId ++ run' ++ [last] ↔
      id ∈ (handed ++ [(⟨last, buffer⟩ : IframeData)]).map IframeData.frameId := by
    intro id
    rw [List.map_append, List.mem_append, List.mem_append, List.mem_append, ← h.handed_ids,
      List.map_singleton]
    constructor
    · rintro ((hid | hid) | hid)
      · exact .inl hid
      · exact .inr (List.mem_singleton.mpr (hrun' id hid))
      · exact .inr hid
    · exact Or.imp_left .inl
  refine ⟨h.holds.receive_other hle hd hne, List.cons_ne_nil _ _,
    fun d hm => List.mem_singleton.mp hm ▸ rfl, fun d hm => ?_, ?_, ?_, ?_, ?_⟩
  · rw [List.getLast?_append_of_ne_nil _ h.run_ne] at hm
    exact h.run_ids d (List.mem_of_mem_getLast? hm) ▸ hne.symm
  · rw [added_length hd st.packet_length, List.map_singleton, List.sum_singleton]
  · intro id hid
    rw [List.map_append, List.map_singleton, List.getLast?_concat] at hid
    exact Option.mem_some.mp hid ▸ hne.symm
  · intro id
    rw [hids]
    exact hmem id
  · rw [List.map_append, List.map_singleton, increasing_concat h.handed_last, h.order, ids_concat,
      hids, idsInOrder_other hne]
    refine and_congr_right fun _ => ⟨fun hall c hc => ?_, fun hall c hc => ?_⟩
    · rcases List.mem_append.mp hc with hc | hc
      · exact hall c ((h.handed_ids c).mp hc)
      · exact (hrun' c hc).le
    · exact hall c (List.mem_append_left _ ((h.handed_ids c).mpr hc))

theorem FramesFit.of_concat (h : FramesFit packetSize (datagrams ++ [datagram])) :
    FramesFit packetSize datagrams :=
  fun pre run hpre hids => h pre run (hpre.trans (List.prefix_append _ _)) hids

theorem framesFit_nil : FramesFit packetSize [] := by
  intro pre run hpre _
  have hrun : run = [] := (List.append_eq_nil_iff.mp (List.prefix_nil.mp hpre)).2
  rw [hrun]
  exact Nat.zero_le _

theorem Follows.ids_eq (h : Follows st pre run last handed buffer) :
    ∀ d ∈ run, ∀ e ∈ run, gvspPacketGetFrameId d = gvspPacketGetFrameId e :=
  fun d hd e he => (h.run_ids d hd).trans (h.run_ids e he).symm

/-- Packets of one frame at the end are among those of the frame that is received. -/
theorem Follows.suffix (h : Follows st pre run last handed buffer) {pre' run' : List Bytes}
    (hsplit : pre' ++ run' = pre ++ run) (hne : run' ≠ [])
    (hids : ∀ d ∈ run', ∀ e ∈ run', gvspPacketGetFrameId d = gvspPacketGetFrameId e) :
    run' <:+ run := by
  rcases List.append_eq_append_iff.mp hsplit with ⟨mid, rfl, rfl⟩ | ⟨mid, rfl, rfl⟩
  · rcases List.eq_nil_or_concat mid with rfl | ⟨mid', d, rfl⟩
    · exact List.suffix_refl _
    · rw [List.concat_eq_append] at *
      have hd : d ∈ (pre' ++ (mid' ++ [d])).getLast? := by simp
      obtain ⟨e, he⟩ := List.exists_mem_of_ne_nil _ h.run_ne
      refine absurd ?_ (h.pre_last d hd)
      rw [← h.run_ids e he]
      refine hids d ?_ e (List.mem_append_right _ he)
      exact List.mem_append_left _ (List.mem_append_right _ (List.mem_singleton_self d))
  · exact List.suffix_append _ _

theorem Follows.fits_iff (h : Follows st pre run last handed buffer)
    (hsplit : pre ++ run = datagrams ++ [datagram]) (hfit : FramesFit packetSize datagrams) :
    FramesFit packetSize (datagrams ++ [datagram]) ↔ buffer.length ≤ maxFrameSize := by
  rw [h.grown, ← hsplit]
  constructor
  · intro hall
    exact hall pre run (List.prefix_refl _) h.ids_eq
  · intro hle pre' run' hpre hids
    rw [hsplit, List.prefix_concat_iff, ← hsplit] at hpre
    rcases hpre with hpre | hpre
    · by_cases hne : run' = []
      · rw [hne]
        exact Nat.zero_le _
      · obtain ⟨rest, hrest⟩ := h.suffix hpre hne hids
        rw [← hrest, List.map_append, List.sum_append] at hle
        omega
    · exact hfit pre' run' hpre hids

/-- As long as the frames fit, the thread hands the groups of packets over one by one. -/
theorem follows_run {packet : Bytes} (hp : packet.length = packetSize.toNat)
    (hds : ∀ d ∈ datagrams ++ [datagram],
      HeaderReceived packetSize.toNat d ∧ 0 < gvspPacketGetFrameId d)
    (hfit : FramesFit packetSize datagrams) :
    ∃ pre run last handed buffer, pre ++ run = datagrams ++ [datagram] ∧
      Follows ((start packet hp).run (datagrams ++ [datagram])) pre run last handed buffer := by
  induction datagrams using List.reverseRecOn generalizing datagram with
  | nil =>
    obtain ⟨hd, hpos⟩ := hds datagram (List.mem_singleton_self _)
    have hover : (start packet hp).overrun = false := rfl
    have hfirst := receive_other hover hd hpos.ne'
    refine ⟨[], [datagram], _, _, _, rfl, hfirst, List.cons_ne_nil _ _,
      fun d hm => List.mem_singleton.mp hm ▸ rfl, (fun d hm => nomatch hm), ?_,
      (fun id hm => nomatch hm), fun id => Iff.rfl, iff_of_true .nil (idsInOrder_singleton _)⟩
    exact (added_length hd hp).trans List.sum_singleton.symm
  | append_singleton ds e ih =>
    have hds' := fun d hd => hds d (List.mem_append_left _ hd)
    obtain ⟨hd, -⟩ := hds datagram (List.mem_append_right _ (List.mem_singleton_self _))
    obtain ⟨pre, run, last, handed, buffer, hsplit, h⟩ := ih hds' hfit.of_concat
    have hle := (h.fits_iff hsplit hfit.of_concat).mp hfit
    rw [run_concat]
    by_cases heq : gvspPacketGetFrameId datagram = last
    · exact ⟨_, _, _, _, _, by rw [← List.append_assoc, hsplit], h.same hd heq⟩
    · exact ⟨_, _, _, _, _, by rw [hsplit], h.other hle hd heq⟩

theorem overrun_of_not_fit {packet : Bytes} {hp : packet.length = packetSize.toNat}
    (hds : ∀ d ∈ datagrams, HeaderReceived packetSize.toNat d ∧ 0 < gvspPacketGetFrameId d)
    (hfit : ¬ FramesFit packetSize datagrams) :
    ((start packet hp).run datagrams).overrun = true := by
  induction datagrams using List.reverseRecOn with
  | nil => exact absurd framesFit_nil hfit
  | append_singleton ds d ih =>
    by_cases hds' : FramesFit packetSize ds
    · obtain ⟨pre, run, last, handed, buffer, hsplit, h⟩ := follows_run hp hds hds'
      rw [h.fits_iff hsplit hds'] at hfit
      exact h.holds.overrun.trans (decide_eq_true (Nat.lt_of_not_le hfit))
    · have hover := ih (fun d hd => hds d (List.mem_append_left _ hd)) hds'
      rw [run_concat, receive_overrun hover]
      exact hover

/-- The ids that are handed over increase exactly if no packet of an earlier frame that comes
after a later frame began is followed by a packet of another frame. -/
theorem frame_ids (packet : Bytes) (hp : packet.length = packetSize.toNat)
    (datagrams : List Bytes)
    (hds : ∀ d ∈ datagrams, HeaderReceived packetSize.toNat d ∧ 0 < gvspPacketGetFrameId d) :
    IdsIncrease ((start packet hp).run datagrams) ↔
      FramesFit packetSize datagrams ∧ IdsInOrder (datagrams.map gvspPacketGetFrameId) := by
  by_cases hfit : FramesFit packetSize datagrams
  · rcases List.eq_nil_or_concat datagrams with rfl | ⟨ds, d, rfl⟩
    · exact iff_of_true ⟨rfl, .nil⟩ ⟨hfit, idsInOrder_nil⟩
    · rw [List.concat_eq_append] at *
      obtain ⟨pre, run, last, handed, buffer, hsplit, h⟩ := follows_run hp hds hfit.of_concat
      have hle := (h.fits_iff hsplit hfit.of_concat).mp hfit
      have hover := h.holds.overrun.trans (decide_eq_false (Nat.not_lt.mpr hle))
      rw [IdsIncrease, h.holds.handed, h.order, hsplit]
      exact and_congr_left fun _ => iff_of_true hover hfit
  · refine iff_of_false (fun h => ?_) fun h => hfit h.1
    exact Bool.eq_false_iff.mp h.1 (overrun_of_not_fit hds hfit)

end Run

/-- The leaders of frames with these ids. -/
def leaders (ids : List ℕ) : List Bytes :=
  ids.map fun id => gvspPacket id gvspContentTypeDataLeader 0 (List.replicate 36 0)

def noPackets : Thread (gvspBufferSize 100) :=
  start (List.replicate 72 0) List.length_replicate

theorem frame_ids_late : (∀ d ∈ leaders [1, 2, 1],
      HeaderReceived (gvspBufferSize 100).toNat d ∧ 0 < gvspPacketGetFrameId d) ∧
    IdsIncrease (noPackets.run (leaders [1, 2, 1])) := by
  have hds : ∀ d ∈ leaders [1, 2, 1],
      HeaderReceived (gvspBufferSize 100).toNat d ∧ 0 < gvspPacketGetFrameId d := by decide
  have hblocks : ∀ d ∈ leaders [1, 2, 1], grows (gvspBufferSize 100) d = 0 := by decide
  refine ⟨hds, (frame_ids _ _ _ hds).mpr ⟨fun pre run hpre _ => ?_, ?_⟩⟩
  · rw [List.sum_eq_zero fun n hn => ?_]
    · exact Nat.zero_le _
    · obtain ⟨d, hd, rfl⟩ := List.mem_map.mp hn
      exact hblocks d (hpre.subset (List.mem_append_right _ hd))
  · show IdsInOrder ([1] ++ [2] ++ [1])
    refine (idsInOrder_other (by decide)).mpr ⟨?_, by decide⟩
    have hfirst : IdsInOrder ([] ++ [1] ++ [2]) :=
      (idsInOrder_other (by decide)).mpr ⟨idsInOrder_singleton 1, by decide⟩
    exact hfirst

/-- Two packets of each of two frames; the second of frame 1 is late. -/
theorem frame_ids_twice : (∀ d ∈ leaders [1, 2, 1, 2],
      HeaderReceived (gvspBufferSize 100).toNat d ∧ 0 < gvspPacketGetFrameId d) ∧
    (noPackets.run (leaders [1, 2, 1, 2])).handed.map IframeData.frameId = [1, 2, 1] ∧
    ¬ IdsIncrease (noPackets.run (leaders [1, 2, 1, 2])) := by
  have hrun : (noPackets.run (leaders [1, 2, 1, 2])).handed.map IframeData.frameId = [1, 2, 1] := by
    decide +kernel
  refine ⟨by decide, hrun, fun h => ?_⟩
  rw [IdsIncrease, hrun] at h
  exact absurd h.2 (by decide)

end TmkDcl.Capture.GigeCamera
