import TmkDcl.Pipeline.Control
import TmkDcl.Places

/-!
# Where the data slots are

A data offset is in the free ring, in the hand of a thread, or in a mailbox that
its module has not read yet. `State.at` says what each of these places holds,
`SlotMove` what a step does to them: it leaves them alone or carries one offset
from a place to another.
-/

namespace TmkDcl.Pipeline

/-- The places of a data offset. -/
inductive Place where
  | ring
  | held (i : ℕ)
  | boxed (j : ℕ)
  deriving DecidableEq

/-- The thread has the slot of its `dataoffset`. -/
def Thread.holds (t : Thread) : Bool :=
  match t.pc with
  | .setCmd | .setOffs | .postJob | .waitResult | .readResult | .push | .clean | .waitNext
  | .putCmd | .putOffset | .postNext => true
  | .postResult => t.cmd = .job
  | _ => false

def held (t : Thread) : Multiset ℕ := if t.holds then {t.dataoffset} else 0

/-- What the mailbox `b` of the thread `r` still has to deliver. -/
def boxed (b : Mailbox) (r : Thread) : Multiset ℕ :=
  if Unread b r.pc ∧ b.cmd = .job then {b.dataoffset} else 0

/-- The offsets in a place. -/
def State.at (s : State) : Place → Multiset ℕ
  | .ring => s.ring.contents
  | .held i => held (s.thr i)
  | .boxed j => boxed (s.box j) (s.thr j)

/-- The places of a pipeline of `n` modules. -/
def places (n : ℕ) : Finset Place :=
  insert .ring ((Finset.range n).image .held ∪ (Finset.range n).image .boxed)

theorem mem_places {n : ℕ} {p : Place} : p ∈ places n ↔ match p with
    | .ring => True
    | .held i => i < n
    | .boxed j => j < n := by
  cases p <;> simp [places]

/-- What a step does to the places. -/
inductive SlotMove (cfg : Config) (s s' : State) : Prop
  | stay (h : ∀ p, s'.at p = s.at p)
  | carry (offs : ℕ) (p q : Place) (hp : p ∈ places cfg.modulesCnt)
      (hq : q ∈ places cfg.modulesCnt) (hne : p ≠ q) (hout : s.at p = offs ::ₘ s'.at p)
      (hin : s'.at q = offs ::ₘ s.at q) (h : ∀ r, r ≠ p → r ≠ q → s'.at r = s.at r)

/-- The thread stands between the semaphore operation and the index section of
its ring operation. -/
def Pc.inRing : Pc → ℕ
  | .popTake | .pushPost => 1
  | _ => 0

/-- What a step of the thread `k` does to the ring. -/
inductive RingMove (s : State) (k : ℕ) (s' : State) : Prop
  | stay (hr : s'.ring = s.ring) (hpc : (s'.thr k).pc.inRing = (s.thr k).pc.inRing)
      (hne : (s.thr k).pc ≠ .popTake ∧ (s.thr k).pc ≠ .push)
  | wait (hsem : 0 < s.ring.sem) (hr : s'.ring = { s.ring with sem := s.ring.sem - 1 })
      (hpc : (s.thr k).pc = .popWait) (hpc' : (s'.thr k).pc = .popTake)
  | take (hpc : (s.thr k).pc = .popTake) (hr : s'.ring = (ringBufferPop s.ring).2)
      (ht : s'.thr k = ⟨.setCmd, (s.thr k).cmd, (ringBufferPop s.ring).1⟩)
  | put (hpc : (s.thr k).pc = .push) (hin : s.ring.PushInside)
      (hr : s'.ring = ringBufferPush s.ring (s.thr k).dataoffset) (hpc' : (s'.thr k).pc = .pushPost)
  | post (hpc : (s.thr k).pc = .pushPost) (hr : s'.ring = { s.ring with sem := s.ring.sem + 1 })
      (hpc' : (s'.thr k).pc = .waitCmd)

section Moves

variable {cfg : Config} {s s' : State} {i j k : ℕ} {a : Label}

theorem ThreadMove.ring (h : ThreadMove cfg s k s') : RingMove s k s' := by
  cases h
  case popWait hpc _ hr => exact .wait hr rfl hpc (by simp)
  case popTake hpc _ => exact .take hpc rfl (by simp)
  case push hpc hin => exact .put hpc hin rfl (by simp)
  case pushPost hpc => exact .post hpc rfl (by simp)
  case startPost hpc pc hs | postNext hpc _ pc hs | stopWaitResult hpc pc hs _
    | postStop hpc _ _ pc hs | postTaken hpc _ _ pc hs =>
    refine .stay rfl ?_ (by simp [hpc])
    simp only [State.goto, State.setBox, State.setProc, State.emit, Function.update_self, hpc, hs]
    split <;> rfl
  case checkExit hpc _ | checkState hpc _ | readResult hpc _ =>
    refine .stay rfl ?_ (by simp [hpc])
    simp only [State.goto, State.emit, Function.update_self, hpc]
    split <;> rfl
  all_goals exact .stay rfl (by simp [*, Pc.inRing]) (by simp [*])

theorem boxed_of_read {b : Mailbox} {r : Thread} (h : ¬ Unread b r.pc) : boxed b r = 0 :=
  if_neg fun hb => h hb.1

theorem SendMove.boxed_post {a a' r : Thread} {b b' : Mailbox} (h : SendMove a a' b b')
    (hl : LinkInv a b r) (hp : a.pc.sendPhase = .post) :
    boxed b r = 0 ∧ boxed b' r = {a.dataoffset} := by
  obtain ⟨htok, hjob, hoffs, hstop, hread, hiff⟩ := hl
  cases h with
  | post h h' =>
    have hb : b.cmd = .job := hjob (Or.inr h)
    have hun : ¬ Unread b r.pc := by grind [Unread, SendPhase.writing, RecvPhase.reading]
    refine ⟨boxed_of_read hun, ?_⟩
    rw [boxed, if_pos ⟨Or.inl (Nat.succ_pos _), hb⟩, hoffs h]
  | stay h h' => rcases h with h | h <;> simp [hp] at h
  | _ h => simp [hp] at h

theorem SendMove.boxed_eq {a a' r : Thread} {b b' : Mailbox} (h : SendMove a a' b b')
    (hl : LinkInv a b r) (hp : a.pc.sendPhase ≠ .post) : boxed b' r = boxed b r := by
  obtain ⟨htok, hjob, hoffs, hstop, hread, hiff⟩ := hl
  cases h with
  | stay h h' => rfl
  | wait h hr h' => rfl
  | post h h' => exact absurd h hp
  | stopPost h h' =>
    have hb : b.cmd = .stop := hstop (Or.inl h)
    simp [boxed, hb]
  | cmd h h' | offset h h' ho | stopCmd h h' =>
    have hun : ¬ Unread b r.pc := by grind [Unread, SendPhase.writing, RecvPhase.reading]
    rw [boxed_of_read hun]
    exact boxed_of_read hun

theorem RecvMove.boxed_read {a r r' : Thread} {b b' : Mailbox} (h : RecvMove r r' b b')
    (hl : LinkInv a b r) (hp : r.pc.recvPhase = .offset) (hc : r.cmd = .job) :
    boxed b r = {b.dataoffset} ∧ boxed b' r' = 0 := by
  obtain ⟨htok, hjob, hoffs, hstop, hread, hiff⟩ := hl
  cases h with
  | offset h h' hc' ho =>
    have hun : ¬ Unread b r'.pc := by grind [Unread, SendPhase.writing, RecvPhase.reading]
    exact ⟨if_pos ⟨Or.inr (Or.inr h), (hread h).symm.trans hc⟩, boxed_of_read hun⟩
  | stay h h' => rcases h with h | h <;> simp [hp] at h
  | _ h => simp [hp] at h

theorem RecvMove.boxed_eq {a r r' : Thread} {b b' : Mailbox} (h : RecvMove r r' b b')
    (hl : LinkInv a b r) (hp : r.pc.recvPhase = .offset → r.cmd = .stop) :
    boxed b' r' = boxed b r := by
  obtain ⟨htok, hjob, hoffs, hstop, hread, hiff⟩ := hl
  cases h with
  | stay h h' => exact if_congr (by simp [Unread, h']) rfl rfl
  | wait h hr h' => simp [boxed, Unread, h', hr]
  | cmd h h' hc => simp [boxed, Unread, h, h']
  | offset h h' hc ho =>
    have hcmd : b.cmd = .stop := (hread h).symm.trans (hp h)
    simp [boxed, hcmd]
  | post h hc h' | postStop h hc h' =>
    have hun : ¬ Unread b r'.pc := by grind [Unread, RecvPhase.reading]
    have hun' : ¬ Unread b r.pc := by grind [Unread, RecvPhase.reading]
    rw [boxed_of_read hun']
    exact boxed_of_read hun

theorem ThreadMove.held_eq (h : ThreadMove cfg s k s') (h1 : (s.thr k).pc ≠ .popTake)
    (h2 : (s.thr k).pc ≠ .push) (h3 : (s.thr k).pc ≠ .postNext)
    (h4 : (s.thr k).pc = .readOffset → (s.thr k).cmd = .stop) :
    held (s'.thr k) = held (s.thr k) := by
  cases h
  case startPost hpc pc hs | stopWaitResult hpc pc hs _ | postStop hpc _ _ pc hs
    | postTaken hpc _ _ pc hs =>
    simp only [State.goto, State.setBox, State.setProc, State.emit, Function.update_self, hs]
    split <;> simp [held, Thread.holds, *]
  case checkExit hpc _ | checkState hpc _ | readResult hpc _ =>
    simp only [State.goto, State.emit, Function.update_self]
    split <;> simp [held, Thread.holds, *]
  all_goals simp_all [held, Thread.holds]

theorem Pc.recvPhase_offset {pc : Pc} : pc.recvPhase = .offset ↔ pc = .readOffset := by
  cases pc <;> simp [Pc.recvPhase]

theorem Pc.sendPhase_post {pc : Pc} : pc.sendPhase = .post ↔ pc = .postNext := by
  cases pc <;> simp [Pc.sendPhase]

/-- There is never anything in the mailbox of the head. -/
theorem Inv.head_read (hi : Inv cfg s) (hm : cfg.method k = some .sourceThread) :
    ¬ Unread (s.box k) (s.thr k).pc := by
  have hr := hi.runs k _ hm
  have hnew := hi.head_new k hm
  cases hpc : (s.thr k).pc <;> simp_all [Unread, ThreadMethod.runs, Pc.recvPhase]

/-- A thread empties its own mailbox by a read only. -/
theorem ThreadMove.at_own_box (ch : Chain cfg) (hi : Inv cfg s) (hk : k < cfg.modulesCnt)
    (h : ThreadMove cfg s k s')
    (hr : (s.thr k).pc = .readOffset → (s.thr k).cmd = .stop) :
    s'.at (.boxed k) = s.at (.boxed k) := by
  by_cases hm : cfg.method k = some .sourceThread
  · simp only [State.at]
    rw [boxed_of_read (hi.head_read hm), boxed_of_read ((hi.thread ch h).head_read hm)]
  · obtain ⟨i, hn⟩ := ch.exists_pred hk fun he => hm ((ch.source_iff hk).mpr he)
    have hrecv := h.recv (fun hn' => ch.next_ne_self hn' rfl) hm
    exact hrecv.boxed_eq (hi.link i k hn) fun hp => hr (Pc.recvPhase_offset.mp hp)

/-- A thread fills no mailbox but that of its next module, and that by a post only. -/
theorem ThreadMove.at_box (ch : Chain cfg) (hi : Inv cfg s) (hk : k < cfg.modulesCnt)
    (h : ThreadMove cfg s k s') (hj : j ≠ k) (hs : cfg.next k = some j → (s.thr k).pc ≠ .postNext) :
    s'.at (.boxed j) = s.at (.boxed j) := by
  simp only [State.at, h.thr_of_ne hj]
  by_cases hn : cfg.next k = some j
  · have hsend := h.send hn (Ne.symm hj) fun hm => by
      simp [(ch.next_none_iff hk).mpr hm] at hn
    exact hsend.boxed_eq (hi.link k j hn) fun hp => hs hn (Pc.sendPhase_post.mp hp)
  · rw [h.box_of_ne hj hn]

theorem ThreadMove.held_released (h : ThreadMove cfg s k s')
    (hpc : (s.thr k).pc = .push ∨ (s.thr k).pc = .postNext) :
    held (s.thr k) = {(s.thr k).dataoffset} ∧ held (s'.thr k) = 0 := by
  refine ⟨by rcases hpc with hpc | hpc <;> simp [held, Thread.holds, hpc], ?_⟩
  cases h
  case push => simp [held, Thread.holds]
  case postNext pc hs =>
    simp only [State.goto, State.setBox, State.emit, Function.update_self, hs]
    split <;> simp [held, Thread.holds]
  all_goals simp_all

theorem ThreadMove.held_read (h : ThreadMove cfg s k s') (hpc : (s.thr k).pc = .readOffset)
    (hc : (s.thr k).cmd = .job) :
    held (s.thr k) = 0 ∧ held (s'.thr k) = {(s.box k).dataoffset} := by
  refine ⟨by simp [held, Thread.holds, hpc], ?_⟩
  cases h
  case readOffset => simp [held, Thread.holds, hc]
  all_goals simp_all

theorem ThreadMove.next_of_post (h : ThreadMove cfg s k s') (hpc : (s.thr k).pc = .postNext) :
    ∃ j, cfg.next k = some j := by
  cases h
  case postNext hn _ _ => exact ⟨_, hn⟩
  all_goals simp_all

theorem ThreadMove.at_ring (h : ThreadMove cfg s k s') (h1 : (s.thr k).pc ≠ .popTake)
    (h2 : (s.thr k).pc ≠ .push) : s'.at .ring = s.at .ring := by
  cases h.ring with
  | stay hr | wait _ hr | post _ hr => simp [State.at, hr]
  | take hpc => exact absurd hpc h1
  | put hpc => exact absurd hpc h2

theorem ThreadMove.at_held (h : ThreadMove cfg s k s') (hi : i ≠ k) :
    s'.at (.held i) = s.at (.held i) := by
  simp [State.at, h.thr_of_ne hi]

theorem ThreadMove.slots_pop (ch : Chain cfg) (hi : Inv cfg s) (hk : k < cfg.modulesCnt)
    (h : ThreadMove cfg s k s') (hpc : (s.thr k).pc = .popTake) (hw : s.ring.Wf)
    (hu : 0 < s.ring.used) : SlotMove cfg s s' := by
  obtain ⟨-, hc⟩ := RingBuffer.pop_spec hw hu
  obtain ⟨hr, ht⟩ : s'.ring = (ringBufferPop s.ring).2 ∧
      s'.thr k = ⟨.setCmd, (s.thr k).cmd, (ringBufferPop s.ring).1⟩ := by
    cases h.ring with
    | take _ hr ht => exact ⟨hr, ht⟩
    | stay _ _ hne => exact absurd hpc hne.1
    | _ => simp_all
  refine .carry (ringBufferPop s.ring).1 .ring (.held k) (mem_places.mpr trivial)
    (mem_places.mpr hk) (by simp) ?_ ?_ fun p hp hq => ?_
  · simp [State.at, hr, hc]
  · simp [State.at, held, Thread.holds, ht, hpc]
  · cases p with
    | ring => exact absurd rfl hp
    | held i => exact h.at_held (by simpa using hq)
    | boxed j =>
      by_cases hj : j = k
      · exact hj ▸ h.at_own_box ch hi hk (by simp [hpc])
      · exact h.at_box ch hi hk hj (by simp [hpc])

theorem ThreadMove.slots_push (ch : Chain cfg) (hi : Inv cfg s) (hk : k < cfg.modulesCnt)
    (h : ThreadMove cfg s k s') (hpc : (s.thr k).pc = .push) (hw : s.ring.Wf)
    (hu : s.ring.used < s.ring.maxCnt) (hint : s.ring.maxCnt < 2 ^ 31) : SlotMove cfg s s' := by
  obtain ⟨hin, hr⟩ : s.ring.PushInside ∧ s'.ring = ringBufferPush s.ring (s.thr k).dataoffset := by
    cases h.ring with
    | put _ hin hr _ => exact ⟨hin, hr⟩
    | stay _ _ hne => exact absurd hpc hne.2
    | _ => simp_all
  obtain ⟨-, hc⟩ := RingBuffer.push_spec hw hu hint hin (s.thr k).dataoffset
  obtain ⟨h1, h2⟩ := h.held_released (Or.inl hpc)
  refine .carry (s.thr k).dataoffset (.held k) .ring (mem_places.mpr hk) (mem_places.mpr trivial)
    (by simp) ?_ ?_ fun p hp hq => ?_
  · simp [State.at, h1, h2]
  · simp only [State.at, hr, hc]
    exact Multiset.coe_eq_coe.mpr (List.perm_append_singleton ..)
  · cases p with
    | ring => exact absurd rfl hq
    | held i => exact h.at_held (by simpa using hp)
    | boxed j =>
      by_cases hj : j = k
      · exact hj ▸ h.at_own_box ch hi hk (by simp [hpc])
      · exact h.at_box ch hi hk hj (by simp [hpc])

theorem ThreadMove.slots_post (ch : Chain cfg) (hi : Inv cfg s) (hk : k < cfg.modulesCnt)
    (h : ThreadMove cfg s k s') (hpc : (s.thr k).pc = .postNext) : SlotMove cfg s s' := by
  obtain ⟨j, hn⟩ := h.next_of_post hpc
  have hkj : k ≠ j := ch.next_ne_self hn
  have hsend := h.send hn hkj fun hm => by simp [(ch.next_none_iff hk).mpr hm] at hn
  obtain ⟨hb, hb'⟩ := hsend.boxed_post (hi.link k j hn) (Pc.sendPhase_post.mpr hpc)
  obtain ⟨h1, h2⟩ := h.held_released (Or.inr hpc)
  refine .carry (s.thr k).dataoffset (.held k) (.boxed j) (mem_places.mpr hk)
    (mem_places.mpr (ch.next_lt hn)) (by simp) ?_ ?_ fun p hp hq => ?_
  · simp [State.at, h1, h2]
  · simp [State.at, h.thr_of_ne hkj.symm, hb, hb']
  · cases p with
    | ring => exact h.at_ring (by simp [hpc]) (by simp [hpc])
    | held i => exact h.at_held (by simpa using hp)
    | boxed i =>
      by_cases hik : i = k
      · exact hik ▸ h.at_own_box ch hi hk (by simp [hpc])
      · refine h.at_box ch hi hk hik fun hn' => ?_
        exact absurd (Option.some_inj.mp (hn'.symm.trans hn)) (by simpa using hq)

theorem ThreadMove.slots_read (ch : Chain cfg) (hi : Inv cfg s) (hk : k < cfg.modulesCnt)
    (h : ThreadMove cfg s k s') (hpc : (s.thr k).pc = .readOffset) (hc : (s.thr k).cmd = .job) :
    SlotMove cfg s s' := by
  have hm : cfg.method k ≠ some .sourceThread := fun hm => by
    simpa [hpc, ThreadMethod.runs] using hi.runs k _ hm
  obtain ⟨i, hn⟩ := ch.exists_pred hk fun he => hm ((ch.source_iff hk).mpr he)
  have hrecv := h.recv (fun hn' => ch.next_ne_self hn' rfl) hm
  obtain ⟨hb, hb'⟩ := hrecv.boxed_read (hi.link i k hn) (Pc.recvPhase_offset.mpr hpc) hc
  obtain ⟨h1, h2⟩ := h.held_read hpc hc
  refine .carry (s.box k).dataoffset (.boxed k) (.held k) (mem_places.mpr hk)
    (mem_places.mpr hk) (by simp) ?_ ?_ fun p hp hq => ?_
  · simp [State.at, hb, hb']
  · simp [State.at, h1, h2]
  · cases p with
    | ring => exact h.at_ring (by simp [hpc]) (by simp [hpc])
    | held i => exact h.at_held (by simpa using hq)
    | boxed i => exact h.at_box ch hi hk (by simpa using hp) (by simp [hpc])

/-- The steps of a thread on the places. The guards of the two ring sections are
taken as hypotheses here: they follow from the conservation itself. -/
theorem ThreadMove.slots (ch : Chain cfg) (hi : Inv cfg s) (hk : k < cfg.modulesCnt)
    (hw : s.ring.Wf) (hint : s.ring.maxCnt < 2 ^ 31)
    (hpop : (s.thr k).pc = .popTake → 0 < s.ring.used)
    (hpush : (s.thr k).pc = .push → s.ring.used < s.ring.maxCnt) (h : ThreadMove cfg s k s') :
    SlotMove cfg s s' := by
  by_cases h1 : (s.thr k).pc = .popTake
  · exact h.slots_pop ch hi hk h1 hw (hpop h1)
  by_cases h2 : (s.thr k).pc = .push
  · exact h.slots_push ch hi hk h2 hw (hpush h2) hint
  by_cases h3 : (s.thr k).pc = .postNext
  · exact h.slots_post ch hi hk h3
  by_cases h4 : (s.thr k).pc = .readOffset ∧ (s.thr k).cmd = .job
  · exact h.slots_read ch hi hk h4.1 h4.2
  · have hread : (s.thr k).pc = .readOffset → (s.thr k).cmd = .stop := fun hpc => by
      cases hc : (s.thr k).cmd with
      | stop => rfl
      | job => exact absurd ⟨hpc, hc⟩ h4
    refine .stay fun p => ?_
    cases p with
    | ring => exact h.at_ring h1 h2
    | held i =>
      by_cases hik : i = k
      · exact hik ▸ h.held_eq h1 h2 h3 hread
      · exact h.at_held hik
    | boxed j =>
      by_cases hj : j = k
      · exact hj ▸ h.at_own_box ch hi hk hread
      · exact h.at_box ch hi hk hj fun _ => h3

end Moves

/-! ### Conservation -/

/-- The slots and the semaphore of the ring in a reachable state. -/
structure SlotInv (cfg : Config) (s : State) : Prop where
  wf : s.ring.Wf
  maxCnt : s.ring.maxCnt = cfg.map.dataCnt
  used : s.ring.used = s.ring.sem + ∑ i ∈ Finset.range cfg.modulesCnt, (s.thr i).pc.inRing
  total : ∑ p ∈ places cfg.modulesCnt, s.at p = ↑(createdOffsets cfg.map)

section Conservation

variable {cfg : Config} {s s' : State} {i j k : ℕ} {a : Label}

theorem SlotMove.total (h : SlotMove cfg s s') :
    ∑ p ∈ places cfg.modulesCnt, s'.at p = ∑ p ∈ places cfg.modulesCnt, s.at p := by
  cases h with
  | stay h => exact Finset.sum_congr rfl fun p _ => h p
  | carry offs p q hp hq hne hout hin h => exact Places.sum_move hp hq hne hout hin h

theorem SlotInv.used_pos (h : SlotInv cfg s) (hk : k < cfg.modulesCnt)
    (hpc : (s.thr k).pc = .popTake) : 0 < s.ring.used := by
  have hle : (s.thr k).pc.inRing ≤ ∑ i ∈ Finset.range cfg.modulesCnt, (s.thr i).pc.inRing :=
    Finset.single_le_sum (f := fun i => (s.thr i).pc.inRing) (fun _ _ => Nat.zero_le _)
      (Finset.mem_range.mpr hk)
  have hone : (s.thr k).pc.inRing = 1 := by rw [hpc]; rfl
  rw [h.used]
  omega

theorem SlotInv.used_lt (h : SlotInv cfg s) (hk : k < cfg.modulesCnt)
    (hpc : (s.thr k).holds = true) : s.ring.used < s.ring.maxCnt := by
  have hle := Places.add_le_sum (f := s.at) (p := .ring) (q := .held k)
    (mem_places.mpr trivial) (mem_places.mpr hk) (by simp)
  rw [h.total] at hle
  have hcard := Multiset.card_le_card hle
  simp only [State.at, held, hpc, if_true, Multiset.card_add, Multiset.coe_card,
    RingBuffer.contents_length, Multiset.card_singleton, createdOffsets_length] at hcard
  rw [h.maxCnt]
  omega

theorem SlotInv.maxCnt_lt (h : SlotInv cfg s) : s.ring.maxCnt < 2 ^ 31 :=
  h.maxCnt ▸ cfg.dataCnt_lt

theorem SlotInv.thread (ch : Chain cfg) (hs : SlotInv cfg s) (hi : Inv cfg s)
    (hk : k < cfg.modulesCnt) (h : ThreadMove cfg s k s') : SlotInv cfg s' := by
  have hpop := fun hpc => hs.used_pos hk hpc
  have hpush : (s.thr k).pc = .push → s.ring.used < s.ring.maxCnt := fun hpc =>
    hs.used_lt hk (by simp [Thread.holds, hpc])
  have htotal := (h.slots ch hi hk hs.wf hs.maxCnt_lt hpop hpush).total.trans hs.total
  have hsum : ∑ i ∈ Finset.range cfg.modulesCnt, (s'.thr i).pc.inRing + (s.thr k).pc.inRing =
      ∑ i ∈ Finset.range cfg.modulesCnt, (s.thr i).pc.inRing + (s'.thr k).pc.inRing :=
    Places.sum_change (f := fun i => (s.thr i).pc.inRing) (g := fun i => (s'.thr i).pc.inRing)
      (Finset.mem_range.mpr hk) fun i hi => by rw [h.thr_of_ne hi]
  have hused := hs.used
  cases h.ring with
  | stay hr hpc _ =>
    refine ⟨hr ▸ hs.wf, hr ▸ hs.maxCnt, ?_, htotal⟩
    rw [hr]
    omega
  | wait hsem hr hpc hpc' =>
    refine ⟨hr ▸ hs.wf.sem _, hr ▸ hs.maxCnt, ?_, htotal⟩
    rw [hpc, hpc'] at hsum
    simp only [hr, Pc.inRing] at *
    omega
  | take hpc hr ht =>
    have hu := hpop hpc
    refine ⟨hr ▸ (RingBuffer.pop_spec hs.wf hu).1, hr ▸ hs.maxCnt, ?_, htotal⟩
    rw [hpc, ht] at hsum
    simp only [hr, ringBufferPop, Pc.inRing] at *
    omega
  | put hpc hin hr hpc' =>
    have hwf := (RingBuffer.push_spec hs.wf (hpush hpc) hs.maxCnt_lt hin (s.thr k).dataoffset).1
    refine ⟨hr ▸ hwf, hr ▸ hs.maxCnt, ?_, htotal⟩
    rw [hpc, hpc'] at hsum
    simp only [hr, RingBuffer.push_used, RingBuffer.push_sem, Pc.inRing] at *
    omega
  | post hpc hr hpc' =>
    refine ⟨hr ▸ hs.wf.sem _, hr ▸ hs.maxCnt, ?_, htotal⟩
    rw [hpc, hpc'] at hsum
    simp only [hr, Pc.inRing] at *
    omega

/-- A module that is not initialised has nothing in its mailbox. -/
theorem Inv.newCmd_uninit (ch : Chain cfg) (hi : Inv cfg s) (hk : k < cfg.modulesCnt)
    (hu : (s.thr k).pc = .uninit) : (s.box k).newCmd = 0 := by
  by_cases hm : cfg.method k = some .sourceThread
  · exact hi.head_new k hm
  · obtain ⟨i, hn⟩ := ch.exists_pred hk fun he => hm ((ch.source_iff hk).mpr he)
    have htok := (hi.link i k hn).tokens
    simp only [hu, Pc.recvPhase, if_true] at htok
    omega

theorem SlotInv.create (ch : Chain cfg) (hs : SlotInv cfg s) (hi : Inv cfg s)
    (hk : k < cfg.modulesCnt) (hu : (s.thr k).pc = .uninit) (m : MainPc) :
    SlotInv cfg { createModule s k with main := m } := by
  have hat : ∀ p, ({ createModule s k with main := m } : State).at p = s.at p := fun p => by
    cases p with
    | ring => rfl
    | held i =>
      by_cases hik : i = k
      · subst hik
        simp [State.at, createModule, held, Thread.holds, hu]
      · simp [State.at, createModule, hik]
    | boxed j =>
      by_cases hjk : j = k
      · subst hjk
        have hnew := hi.newCmd_uninit ch hk hu
        simp [State.at, createModule, boxed, Unread, hu, hnew, Pc.recvPhase]
      · simp [State.at, createModule, hjk]
  refine ⟨hs.wf, hs.maxCnt, ?_, ?_⟩
  · refine hs.used.trans (congrArg _ (Finset.sum_congr rfl fun i _ => ?_))
    by_cases hik : i = k
    · subst hik
      simp [createModule, hu, Pc.inRing]
    · simp [createModule, hik]
  · exact (Finset.sum_congr rfl fun p _ => hat p).trans hs.total

theorem SlotInv.initial : SlotInv cfg (initial cfg) := by
  have hwf : (Pipeline.initial cfg).ring.Wf := by
    have := RingBuffer.create_wf cfg.map.dataCnt false
    refine ⟨?_, this.start_lt, this.used_le⟩
    simp [Pipeline.initial, ringBufferCreate, createdOffsets_length]
  refine ⟨hwf, rfl, ?_, ?_⟩
  · simp [Pipeline.initial, Pc.inRing, ringBufferCreate]
  · rw [Finset.sum_eq_single (Place.ring)]
    · have hc := RingBuffer.contents_filled (createdOffsets cfg.map)
      rw [createdOffsets_length] at hc
      simp [State.at, Pipeline.initial, hc]
    · intro p _ hp
      cases p with
      | ring => exact absurd rfl hp
      | held i => simp [State.at, Pipeline.initial, held, Thread.holds]
      | boxed j => simp [State.at, Pipeline.initial, boxed]
    · exact fun hr => absurd (mem_places.mpr trivial) hr

theorem slotInv (ch : Chain cfg) {ok : State → Label → Prop} (h : (sys cfg).Reach ok s) :
    SlotInv cfg s := by
  refine h.invariant (SlotInv cfg) ?_ fun s a s' hr hs _ hstep => ?_
  · rintro s rfl
    exact .initial
  · have hi := reach_inv ch hr
    have hmove := step_move ch hstep
    cases hmove with
    | thread hk h => exact hs.thread ch hi hk h
    | child h =>
      refine ⟨h.ring ▸ hs.wf, h.ring ▸ hs.maxCnt, by rw [h.ring, h.thr]; exact hs.used, ?_⟩
      refine (Finset.sum_congr rfl fun p _ => ?_).trans hs.total
      cases p <;> simp [State.at, h.ring, h.thr, h.box]
    | main h =>
      rcases h.create_or with ⟨k, hm, hk, rfl⟩ | ⟨hthr, hbox⟩
      · exact hs.create ch hi hk ((startInv hr).fresh hm) _
      · refine ⟨h.ring ▸ hs.wf, h.ring ▸ hs.maxCnt, by rw [h.ring, hthr]; exact hs.used, ?_⟩
        refine (Finset.sum_congr rfl fun p _ => ?_).trans hs.total
        cases p <;> simp [State.at, h.ring, hthr, hbox]
    | destroy h => cases h <;> exact ⟨hs.wf, hs.maxCnt, hs.used, hs.total⟩
    | raise => exact ⟨hs.wf, hs.maxCnt, hs.used, hs.total⟩

theorem held_of_stopped {t : Thread} (h : t.pc.sendPhase = .stopped) : held t = 0 := by
  have hn : t.holds = false := by
    unfold Thread.holds
    split <;> simp_all [Pc.sendPhase]
  simp [held, hn]

/-- The `finalization_thread` returns last, when nothing is under way any more. -/
theorem SlotInv.final_done (ch : Chain cfg) (hs : SlotInv cfg s) (hi : Inv cfg s)
    (hk : k < cfg.modulesCnt) (hm : cfg.method k = some .finalizationThread)
    (hd : (s.thr k).pc = .done) : s.ring.contents.Perm (createdOffsets cfg.map) := by
  have hstop : ∀ i, i < cfg.modulesCnt → i ≠ k → (s.thr i).pc.sendPhase = .stopped :=
    fun i hlt hne => hi.upstream_stopped ch hk (Or.inr (by rw [hd]; rfl)) hlt
      (ch.pos_lt_final hk hm hlt hne)
  have htotal := hs.total
  rw [Finset.sum_eq_single (Place.ring)] at htotal
  · exact Multiset.coe_eq_coe.mp htotal
  · intro p hp hne
    cases p with
    | ring => exact absurd rfl hne
    | held i =>
      refine held_of_stopped ?_
      by_cases hik : i = k
      · rw [hik, hd]
        rfl
      · exact hstop i (mem_places.mp hp) hik
    | boxed j =>
      have hj : j < cfg.modulesCnt := mem_places.mp hp
      by_cases hh : cfg.method j = some .sourceThread
      · exact boxed_of_read (hi.head_read hh)
      · obtain ⟨i, hn⟩ := ch.exists_pred hj fun he => hh ((ch.source_iff hj).mpr he)
        have hik : i ≠ k := by
          rintro rfl
          simp [(ch.next_none_iff hk).mpr hm] at hn
        have hcmd := (hi.link i j hn).cmd_stop (Or.inr (hstop i (Config.lt_of_next hn) hik))
        simp [State.at, boxed, hcmd]
  · exact fun hr => absurd (mem_places.mpr trivial) hr

/-- A thread that comes to a push writes an entry of the ring. -/
theorem SlotInv.pushInside (hs : SlotInv cfg s) (hbig : cfg.map.dataCnt ≤ 2 ^ 30)
    (hk : k < cfg.modulesCnt) (hpc : (s.thr k).pc = .push) : s.ring.PushInside :=
  hs.wf.pushInside (hs.used_lt hk (by simp [Thread.holds, hpc])) (hs.maxCnt ▸ hbig)

/-- The slots of a state are conserved: each created offset is in exactly one
place, there are no others, a push finds a free entry and writes in the buffer, and
the ring has them all when the `finalization_thread` has returned. -/
structure Conserved (cfg : Config) (s : State) : Prop where
  one_place : ∀ offs ∈ createdOffsets cfg.map, ∃ p ∈ places cfg.modulesCnt,
    Multiset.count offs (s.at p) = 1 ∧ ∀ q ∈ places cfg.modulesCnt, q ≠ p → offs ∉ s.at q
  created : ∀ p ∈ places cfg.modulesCnt, ∀ offs ∈ s.at p, offs ∈ createdOffsets cfg.map
  not_full : ∀ k, cfg.method k ≠ none → (s.thr k).pc = .push → s.ring.used < s.ring.maxCnt
  inside : ∀ k, cfg.method k ≠ none → (s.thr k).pc = .push → s.ring.PushInside
  returned : ∀ k, cfg.method k = some .finalizationThread → (s.thr k).pc = .done →
    s.ring.contents.Perm (createdOffsets cfg.map)

theorem SlotInv.nodup (hs : SlotInv cfg s) : (∑ p ∈ places cfg.modulesCnt, s.at p).Nodup := by
  rw [hs.total]
  exact createdOffsets_nodup cfg.map cfg.dataSize_pos

theorem slot_conservation (ch : Chain cfg) (hbig : cfg.map.dataCnt ≤ 2 ^ 30)
    (h : (sys cfg).Reach Lts.anyStep s) : Conserved cfg s := by
  have hs := slotInv ch h
  have hlt : ∀ k, cfg.method k ≠ none → k < cfg.modulesCnt := fun k hm => by
    obtain ⟨m, hm⟩ := Option.ne_none_iff_exists'.mp hm
    exact lt_of_method hm
  refine ⟨fun offs ho => ?_, fun p hp offs ho => ?_, fun k hm hpc => ?_, fun k hm hpc => ?_,
    fun k hm hd => ?_⟩
  · refine Places.exists_place hs.nodup ?_
    rw [hs.total]
    exact ho
  · have hmem : offs ∈ ∑ p ∈ places cfg.modulesCnt, s.at p := Multiset.mem_sum.mpr ⟨p, hp, ho⟩
    rwa [hs.total] at hmem
  · exact hs.used_lt (hlt k hm) (by simp [Thread.holds, hpc])
  · exact hs.pushInside hbig (hlt k hm) hpc
  · exact hs.final_done ch (reach_inv ch h) (lt_of_method hm) hm hd

/-- A live pipeline whose head has taken the first slot. -/
theorem slot_conservation_taken :
    ∃ s, (sys (threeModules some fun _ => true)).Reach Lts.anyStep s ∧
      (s.thr 0).pc = .waitResult ∧ Conserved (threeModules some fun _ => true) s := by
  have hreach := Lts.reach_exec (sys (threeModules some fun _ => true)) Lts.anyStep
    (startLabels 3 ++ List.replicate 8 (.thread 0)) rfl (by decide) fun _ _ _ => trivial
  exact ⟨_, hreach, by decide, slot_conservation (threeModules.chain _ _) (by decide) hreach⟩

/-- A round of the two modules of `widestRing`, up to the push of the last one. -/
def roundLabels : List Label :=
  List.flatten [List.replicate 8 (.thread 0), [.child 0, .child 0, .ret 0 0, .child 0],
    List.replicate 5 (.thread 0), List.replicate 5 (.thread 1)]

/-- The second slot comes to the push when `start` is 2. -/
def secondRound : List Label :=
  startLabels 2 ++ roundLabels ++ List.replicate 2 (.thread 1) ++ roundLabels

/-- In the widest ring the second push has no entry. -/
theorem not_slot_conservation_widest : ¬ ∀ cfg : Config, ∀ _ : Chain cfg, ∀ s,
    (sys cfg).Reach Lts.anyStep s → Conserved cfg s := by
  intro hall
  have hreach := Lts.reach_exec (sys widestRing) Lts.anyStep secondRound rfl (by decide +kernel)
    fun _ _ _ => trivial
  have hin := (hall _ widestRing.chain _ hreach).inside 1 (by decide) (by decide +kernel)
  exact absurd hin (by decide +kernel)

end Conservation

end TmkDcl.Pipeline
