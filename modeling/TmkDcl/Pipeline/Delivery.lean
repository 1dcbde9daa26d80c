import TmkDcl.Channel
import TmkDcl.Pipeline.Log
import TmkDcl.Pipeline.Slots
import Mathlib.Algebra.BigOperators.Intervals

/-!
# Delivery along the links

Each mailbox is a one-place channel: the posts of the sender put letters in and
the reads of the receiver take them out, and a letter keeps its bytes in
between because nobody else has its slot. A job that a module has completed is
then in its hand or has been posted.
-/

namespace TmkDcl.Pipeline

/-- The letter that waits in the mailbox `b` of the thread `r`. -/
def pendingLetter (b : Mailbox) (r : Thread) (chunk : ℕ → Chunk) : Option Msg :=
  if Unread b r.pc then some (b.letter chunk) else none

namespace State

def pending (s : State) (j : ℕ) : Option Msg := pendingLetter (s.box j) (s.thr j) s.chunk

/-- The mailbox of module `j` as a one-place channel. -/
def channel (s : State) (j : ℕ) : Channel Msg := ⟨s.mailed j, s.pending j, s.taken j⟩

end State

section Chunks

variable {cfg : Config} {s s' : State} {i j k offs : ℕ} {a : Label}

/-- Only two kinds of statements write to a slot, and their thread holds it. -/
theorem ThreadMove.chunk (h : ThreadMove cfg s k s') (ho : s'.chunk offs ≠ s.chunk offs) :
    (s.thr k).pc = .clean ∧ offs = (s.thr k).dataoffset := by
  cases h
  case clean hpc hm =>
    refine ⟨hpc, ?_⟩
    by_contra hne
    exact ho (Function.update_of_ne hne ..)
  all_goals exact absurd rfl ho

theorem ChildMove.chunk (hi : JobInv (s.thr k) (s.proc k) (s.child k))
    (h : ChildMove cfg s k a s') (ho : s'.chunk offs ≠ s.chunk offs) :
    (s.thr k).pc = .waitResult ∧ offs = (s.thr k).dataoffset := by
  cases h
  case write d hpc ha hd =>
    have hcmd := hi.action hpc
    have htok := hi.tokens
    simp only [hpc, ChildPc.busy] at htok
    have hwait : (s.thr k).pc = .waitResult := by
      cases ht : (s.thr k).pc <;> simp only [ht, Pc.jobPhase, JobPhase.waiting] at htok <;> first
        | rfl
        | omega
        | simp [hi.cmd_stop (by simp [ht, Pc.jobPhase])] at hcmd
    refine ⟨hwait, ?_⟩
    rw [← hi.offs (Or.inr (by rw [hwait]; rfl))]
    by_contra hne
    exact ho (Function.update_of_ne hne ..)
  all_goals exact absurd rfl ho

/-- A write of a slot is made for a thread that holds the slot. -/
theorem Move.chunk (hi : Inv cfg s) (hst : StartInv cfg s.startView)
    (h : Move cfg s a s') (ho : s'.chunk offs ≠ s.chunk offs) :
    ∃ k < cfg.modulesCnt, offs ∈ s.at (.held k) ∧
      ((s.thr k).pc = .clean ∨ (s.thr k).pc = .waitResult) := by
  cases h with
  | thread hk h =>
    obtain ⟨hpc, rfl⟩ := h.chunk ho
    exact ⟨_, hk, by simp [State.at, held, Thread.holds, hpc], Or.inl hpc⟩
  | @child k _ _ h =>
    obtain ⟨hpc, rfl⟩ := h.chunk (hi.job k) ho
    refine ⟨k, ?_, by simp [State.at, held, Thread.holds, hpc], Or.inr hpc⟩
    by_contra hk
    have hu := (hst.modules k).uninit.mpr (Or.inl (Nat.le_of_not_lt hk))
    simp [hpc] at hu
  | main h => cases h <;> exact absurd rfl ho
  | destroy h => cases h <;> exact absurd rfl ho
  | raise => exact absurd rfl ho

theorem Move.boxed_chunk (hi : Inv cfg s) (hst : StartInv cfg s.startView)
    (hs : SlotInv cfg s) (h : Move cfg s a s') (hj : j < cfg.modulesCnt)
    (ho : offs ∈ s.at (.boxed j)) : s'.chunk offs = s.chunk offs := by
  by_contra hne
  obtain ⟨k, hk, hheld, -⟩ := h.chunk hi hst hne
  have := Places.eq_of_mem hs.nodup (mem_places.mpr hj) (mem_places.mpr hk) ho hheld
  simp at this

theorem Move.held_chunk (hi : Inv cfg s) (hst : StartInv cfg s.startView)
    (hs : SlotInv cfg s) (h : Move cfg s a s') (hj : j < cfg.modulesCnt)
    (ho : offs ∈ s.at (.held j)) (h1 : (s.thr j).pc ≠ .clean) (h2 : (s.thr j).pc ≠ .waitResult) :
    s'.chunk offs = s.chunk offs := by
  by_contra hne
  obtain ⟨k, hk, hheld, hpc⟩ := h.chunk hi hst hne
  have he := Places.eq_of_mem hs.nodup (mem_places.mpr hj) (mem_places.mpr hk) ho hheld
  obtain rfl := Place.held.inj he
  rcases hpc with hpc | hpc
  · exact h1 hpc
  · exact h2 hpc

end Chunks

/-! ### The mailbox is a one-place channel -/

section Channel

variable {cfg : Config} {s s' : State} {i j k : ℕ} {a : Label} {t t' r r' : Thread}
  {b b' : Mailbox} {chunk chunk' : ℕ → Chunk}

theorem pendingLetter_none (h : ¬ Unread b r.pc) : pendingLetter b r chunk = none := if_neg h

theorem pendingLetter_chunk (h : ∀ offs ∈ boxed b r, chunk' offs = chunk offs) :
    pendingLetter b r chunk' = pendingLetter b r chunk := by
  unfold pendingLetter
  split
  · rename_i hu
    cases hc : b.cmd with
    | stop => simp [Mailbox.letter, hc]
    | job =>
      have hb : b.dataoffset ∈ boxed b r := by simp [boxed, hu, hc]
      simp [Mailbox.letter, hc, h _ hb]
  · rfl

theorem SendMove.pending_eq (h : SendMove t t' b b') (hl : LinkInv t b r)
    (h1 : t.pc.sendPhase ≠ .post) (h2 : t.pc.sendPhase ≠ .stopPost) :
    pendingLetter b' r chunk = pendingLetter b r chunk := by
  obtain ⟨htok, hjob, hoffs, hstop, hread, hiff⟩ := hl
  cases h with
  | stay h h' => rfl
  | wait h hr h' => rfl
  | post h h' => exact absurd h h1
  | stopPost h h' => exact absurd h h2
  | cmd h h' | offset h h' ho | stopCmd h h' =>
    have hun : ¬ Unread b r.pc := by grind [Unread, SendPhase.writing, RecvPhase.reading]
    rw [pendingLetter_none hun]
    exact pendingLetter_none hun

theorem RecvMove.pending_eq (h : RecvMove r r' b b') (hl : LinkInv t b r)
    (h1 : r.pc.recvPhase ≠ .offset) :
    pendingLetter b' r' chunk = pendingLetter b r chunk := by
  obtain ⟨htok, hjob, hoffs, hstop, hread, hiff⟩ := hl
  cases h with
  | stay h h' => exact if_congr (by simp [Unread, h']) rfl rfl
  | wait h hr h' => simp [pendingLetter, Unread, h', hr, Mailbox.letter]
  | cmd h h' hc => simp [pendingLetter, Unread, h, h']
  | offset h h' hc ho => exact absurd h h1
  | post h hc h' | postStop h hc h' =>
    have hun : ¬ Unread b r'.pc := by grind [Unread, RecvPhase.reading]
    have hun' : ¬ Unread b r.pc := by grind [Unread, RecvPhase.reading]
    rw [pendingLetter_none hun']
    exact pendingLetter_none hun

theorem SendMove.pending_post (chunk : ℕ → Chunk) (h : SendMove t t' b b') (hl : LinkInv t b r)
    (hp : t.pc.sendPhase = .post ∨ t.pc.sendPhase = .stopPost) :
    pendingLetter b r chunk = none ∧ pendingLetter b' r chunk = some (b.letter chunk) := by
  obtain ⟨htok, hjob, hoffs, hstop, hread, hiff⟩ := hl
  have hun : ¬ Unread b r.pc := by grind [Unread, SendPhase.writing, RecvPhase.reading]
  refine ⟨pendingLetter_none hun, ?_⟩
  cases h with
  | post h h' | stopPost h h' => exact if_pos (Or.inl (Nat.succ_pos _))
  | stay h h' => rcases hp with hp | hp <;> simp [hp] at h
  | _ h => rcases hp with hp | hp <;> simp [hp] at h

theorem RecvMove.pending_read (chunk : ℕ → Chunk) (h : RecvMove r r' b b') (hl : LinkInv t b r)
    (hp : r.pc.recvPhase = .offset) :
    pendingLetter b r chunk = some (b.letter chunk) ∧ pendingLetter b' r' chunk = none := by
  obtain ⟨htok, hjob, hoffs, hstop, hread, hiff⟩ := hl
  cases h with
  | offset h h' hc ho =>
    have hun : ¬ Unread b r'.pc := by grind [Unread, SendPhase.writing, RecvPhase.reading]
    exact ⟨if_pos (Or.inr (Or.inr h)), pendingLetter_none hun⟩
  | stay h h' => rcases h with h | h <;> simp [hp] at h
  | _ h => simp [hp] at h

theorem ThreadMove.mailed (h : ThreadMove cfg s k s') (j : ℕ) : s'.mailed j = s.mailed j ++
    if cfg.next k = some j ∧ ((s.thr k).pc = .postNext ∨ (s.thr k).pc = .stopPostNext) then
      [(s.box j).letter s.chunk] else [] := by
  rw [← events_mailed, State.mailed, h.log, List.filterMap_append, State.mailed]

theorem ThreadMove.finished (h : ThreadMove cfg s k s') (i : ℕ) : s'.finished i = s.finished i ++
    if k = i ∧ Finishing cfg s k then
      [(((s.thr k).dataoffset, s.chunk (s.thr k).dataoffset), (s.proc k).cmdResult)] else [] := by
  rw [← events_finished, State.finished, h.log, List.filterMap_append, State.finished]

theorem ThreadMove.taken (hn : cfg.next i = some j) (hl : LinkInv (s.thr i) (s.box j) (s.thr j))
    (h : ThreadMove cfg s k s') : s'.taken j = s.taken j ++
      if k = j ∧ (s.thr k).pc = .readOffset then [(s.box j).letter s.chunk] else [] := by
  have hevents := events_taken cfg s k j
  rw [State.taken, h.log, List.filterMap_append, hevents, State.taken]
  congr 1
  by_cases hk : k = j ∧ (s.thr k).pc = .readOffset
  · obtain ⟨rfl, hpc⟩ := hk
    have hcmd := hl.read (Pc.recvPhase_offset.mpr hpc)
    cases hbox : (s.box k).cmd <;> simp [hpc, Mailbox.letter, hcmd, hbox]
  · rw [if_neg hk, if_neg hk]

theorem ThreadMove.chunk_eq (h : ThreadMove cfg s k s') (hpc : (s.thr k).pc ≠ .clean) :
    s'.chunk = s.chunk := by
  funext offs
  by_contra hne
  exact hpc (h.chunk hne).1

theorem Pc.sendPhase_stopPost {pc : Pc} : pc.sendPhase = .stopPost ↔ pc = .stopPostNext := by
  cases pc <;> simp [Pc.sendPhase]

theorem ThreadMove.channel_put (ch : Chain cfg) (hi : Inv cfg s) (hk : k < cfg.modulesCnt)
    (hn : cfg.next k = some j) (hpc : (s.thr k).pc = .postNext ∨ (s.thr k).pc = .stopPostNext)
    (h : ThreadMove cfg s k s') : (s.channel j).Step (s'.channel j) := by
  have hl := hi.link k j hn
  have hkj : k ≠ j := ch.next_ne_self hn
  have hmail := h.mailed j
  have htake := h.taken hn hl
  have hsend := h.send hn hkj fun hm => by simp [(ch.next_none_iff hk).mpr hm] at hn
  rw [if_pos ⟨hn, hpc⟩] at hmail
  rw [if_neg fun hc => hkj hc.1, List.append_nil] at htake
  obtain ⟨hp, hp'⟩ := hsend.pending_post s.chunk hl
    (hpc.imp Pc.sendPhase_post.mpr Pc.sendPhase_stopPost.mpr)
  have hchunk := h.chunk_eq (by rcases hpc with hpc | hpc <;> simp [hpc])
  have hput := Channel.Step.put (c := s.channel j) ((s.box j).letter s.chunk) hp
  simpa [State.channel, State.pending, hmail, htake, hchunk, h.thr_of_ne hkj.symm, hp'] using hput

theorem ThreadMove.channel_take (ch : Chain cfg) (hi : Inv cfg s) (hn : cfg.next i = some j)
    (hpc : (s.thr j).pc = .readOffset) (h : ThreadMove cfg s j s') :
    (s.channel j).Step (s'.channel j) := by
  have hl := hi.link i j hn
  have hmail := h.mailed j
  have htake := h.taken hn hl
  have hrecv := h.recv (fun hn' => ch.next_ne_self hn' rfl) fun hm =>
    ch.next_ne_head hn ((ch.source_iff (lt_of_method hm)).mp hm)
  rw [if_neg fun hc => by simp [hpc] at hc, List.append_nil] at hmail
  rw [if_pos ⟨rfl, hpc⟩] at htake
  obtain ⟨hp, hp'⟩ := hrecv.pending_read s.chunk hl (Pc.recvPhase_offset.mpr hpc)
  have hchunk := h.chunk_eq (by simp [hpc])
  have hput := Channel.Step.take (c := s.channel j) ((s.box j).letter s.chunk) hp
  simpa [State.channel, State.pending, hmail, htake, hchunk, hp'] using hput

theorem ThreadMove.channel_stay (ch : Chain cfg) (hi : Inv cfg s) (hst : StartInv cfg s.startView)
    (hs : SlotInv cfg s) (hk : k < cfg.modulesCnt) (hn : cfg.next i = some j)
    (h1 : k = i → (s.thr k).pc ≠ .postNext ∧ (s.thr k).pc ≠ .stopPostNext)
    (h2 : k = j → (s.thr k).pc ≠ .readOffset) (h : ThreadMove cfg s k s') :
    s'.channel j = s.channel j := by
  have hl := hi.link i j hn
  have hmail := h.mailed j
  have htake := h.taken hn hl
  have hchunk : ∀ offs ∈ boxed (s.box j) (s.thr j), s'.chunk offs = s.chunk offs := fun offs ho =>
    (Move.thread hk h).boxed_chunk hi hst hs (ch.next_lt hn) ho
  rw [if_neg fun hc => h2 hc.1 hc.2, List.append_nil] at htake
  rw [if_neg fun hc => by grind [ch.next_inj hn hc.1], List.append_nil] at hmail
  have hpend : pendingLetter (s'.box j) (s'.thr j) s'.chunk =
      pendingLetter (s.box j) (s.thr j) s'.chunk := by
    by_cases hki : k = i
    · subst hki
      have hkj : k ≠ j := ch.next_ne_self hn
      have hsend := h.send hn hkj fun hm => by simp [(ch.next_none_iff hk).mpr hm] at hn
      rw [h.thr_of_ne hkj.symm]
      exact hsend.pending_eq hl (fun hp => (h1 rfl).1 (Pc.sendPhase_post.mp hp))
        fun hp => (h1 rfl).2 (Pc.sendPhase_stopPost.mp hp)
    · by_cases hkj : k = j
      · subst hkj
        have hrecv := h.recv (fun hn' => ch.next_ne_self hn' rfl) fun hm =>
          ch.next_ne_head hn ((ch.source_iff hk).mp hm)
        exact hrecv.pending_eq hl fun hp => h2 rfl (Pc.recvPhase_offset.mp hp)
      · rw [h.thr_of_ne (Ne.symm hkj), h.box_of_ne (Ne.symm hkj)
          fun hn' => hki (ch.next_inj hn' hn)]
  simp only [State.channel, State.pending, hmail, htake, hpend, pendingLetter_chunk hchunk]

/-- Every step of the pipeline is a step of the channel or leaves it alone. -/
theorem Move.channel (ch : Chain cfg) (hi : Inv cfg s) (hst : StartInv cfg s.startView)
    (hs : SlotInv cfg s) (hn : cfg.next i = some j) (h : Move cfg s a s') :
    s'.channel j = s.channel j ∨ (s.channel j).Step (s'.channel j) := by
  have hchunk : ∀ offs ∈ boxed (s.box j) (s.thr j), s'.chunk offs = s.chunk offs := fun offs ho =>
    h.boxed_chunk hi hst hs (ch.next_lt hn) ho
  cases h with
  | @thread k _ hk h =>
    by_cases h1 : k = i ∧ ((s.thr k).pc = .postNext ∨ (s.thr k).pc = .stopPostNext)
    · obtain ⟨rfl, hpc⟩ := h1
      exact Or.inr (h.channel_put ch hi hk hn hpc)
    by_cases h2 : k = j ∧ (s.thr k).pc = .readOffset
    · obtain ⟨rfl, hpc⟩ := h2
      exact Or.inr (h.channel_take ch hi hn hpc)
    · refine Or.inl (h.channel_stay ch hi hst hs hk hn (fun hk => ?_) fun hk hpc => h2 ⟨hk, hpc⟩)
      exact ⟨fun hpc => h1 ⟨hk, Or.inl hpc⟩, fun hpc => h1 ⟨hk, Or.inr hpc⟩⟩
  | child h =>
    refine Or.inl ?_
    simp only [State.channel, State.pending, h.mailed, h.taken, h.thr, h.box]
    rw [pendingLetter_chunk hchunk]
  | main h =>
    refine Or.inl ?_
    simp only [State.channel, State.mailed, State.taken, h.log]
    rcases h.create_or with ⟨k, hm, hk, rfl⟩ | ⟨hthr, hbox⟩
    · congr 1
      by_cases hjk : j = k
      · subst hjk
        have hnew := hi.newCmd_uninit ch hk (hst.fresh hm)
        have hun : ¬ Unread (s.box j) (s.thr j).pc := by
          simp [Unread, hnew, hst.fresh hm, Pc.recvPhase]
        rw [State.pending, State.pending, pendingLetter_none hun]
        exact pendingLetter_none (by simp [createModule, Unread, Pc.recvPhase])
      · simp [State.pending, createModule, hjk]
    · simp only [State.pending, hthr, hbox]
      rw [pendingLetter_chunk hchunk]
  | destroy h => cases h <;> exact Or.inl rfl
  | raise => exact Or.inl rfl

theorem channel_good (ch : Chain cfg) {ok : State → Label → Prop} (h : (sys cfg).Reach ok s)
    (hn : cfg.next i = some j) : (s.channel j).Good := by
  refine h.invariant (fun s => (s.channel j).Good) ?_ fun s a s' hr hg _ hs => ?_
  · rintro s rfl
    rfl
  · rcases (step_move ch hs).channel ch (reach_inv ch hr) (startInv hr) (slotInv ch hr) hn with he | he
    · exact he ▸ hg
    · exact he.good hg

end Channel

/-! ### What a module does with its jobs -/

/-- The jobs among the letters. -/
def jobs (ms : List Msg) : List (ℕ × Chunk) := ms.filterMap fun
  | .stop => none
  | .job offs data => some (offs, data)

/-- A completed job that is passed on; the head passes on every job. -/
def Config.accepts (cfg : Config) (i : ℕ) (x : (ℕ × Chunk) × ℤ) : Bool :=
  cfg.method i = some .sourceThread ∨ x.2 = 0

namespace State

/-- The jobs module `i` has completed and passes on. -/
def accepted (cfg : Config) (s : State) (i : ℕ) : List (ℕ × Chunk) :=
  ((s.finished i).filter (cfg.accepts i)).map Prod.fst

/-- The jobs module `i` has completed and rejected. -/
def rejected (cfg : Config) (s : State) (i : ℕ) : List (ℕ × Chunk) :=
  ((s.finished i).filter fun x => !cfg.accepts i x).map Prod.fst

end State

/-- The thread is about to hand its job over. -/
def Pc.passing : Pc → Bool
  | .waitNext | .putCmd | .putOffset | .postNext => true
  | _ => false

/-- The thread has taken a job and is not over with it. -/
def Thread.working (t : Thread) : Bool :=
  match t.pc with
  | .setCmd | .setOffs | .postJob | .waitResult | .readResult => true
  | .postResult => t.cmd = .job
  | _ => false

/-- The accepted job in the hand of the thread. -/
def inHand (t : Thread) (chunk : ℕ → Chunk) : List (ℕ × Chunk) :=
  if t.pc.passing then [(t.dataoffset, chunk t.dataoffset)] else []

/-- The slot of the job the thread works on. -/
def inWork (t : Thread) : List ℕ := if t.working then [t.dataoffset] else []

section Passing

variable {cfg : Config} {s s' : State} {i j k : ℕ} {a : Label}

theorem ThreadMove.finishing (h : ThreadMove cfg s k s') (hf : Finishing cfg s k) :
    s'.thr k = { s.thr k with
      pc := if cfg.method k = some .sourceThread ∨ (s.proc k).cmdResult = 0 then .waitNext
        else .push } := by
  cases h
  case sourceResult hm _ => simp [hm]
  case readResult hpc hm =>
    by_cases hr : (s.proc k).cmdResult = 0 <;> simp [hm, hr]
  case processResult hpc hm _ => simp [Finishing, hpc, hm] at hf
  all_goals simp_all [Finishing]

theorem ThreadMove.passing (h : ThreadMove cfg s k s') (hf : ¬ Finishing cfg s k)
    (hp : (s.thr k).pc ≠ .postNext) : (s'.thr k).pc.passing = (s.thr k).pc.passing ∧
      ((s.thr k).pc.passing = true → (s'.thr k).dataoffset = (s.thr k).dataoffset) := by
  cases h
  case sourceResult hpc hm _ => exact absurd (Or.inl ⟨hpc, hm⟩) hf
  case readResult hpc hm => exact absurd (Or.inr hpc) hf
  case startPost hpc pc hs | stopWaitResult hpc pc hs _ | postStop hpc _ _ pc hs
    | postTaken hpc _ _ pc hs =>
    simp only [State.goto, State.setBox, State.setProc, State.emit, Function.update_self, hs, hpc]
    split <;> simp [Pc.passing]
  case checkExit hpc _ | checkState hpc _ =>
    simp only [State.goto, Function.update_self, hpc]
    split <;> simp [Pc.passing]
  all_goals simp_all [Pc.passing]

theorem ThreadMove.not_passing (h : ThreadMove cfg s k s') (hp : (s.thr k).pc = .postNext) :
    (s'.thr k).pc.passing = false := by
  cases h
  case postNext pc hs =>
    simp only [State.goto, State.setBox, State.emit, Function.update_self, hs]
    split <;> rfl
  all_goals simp_all

theorem ThreadMove.working (h : ThreadMove cfg s k s') (hm : cfg.method k = some .processThread)
    (hf : ¬ Finishing cfg s k) (hp : (s.thr k).pc ≠ .readOffset) :
    inWork (s'.thr k) = inWork (s.thr k) := by
  cases h
  case readResult hpc hm => exact absurd (Or.inr hpc) hf
  case startPost hpc pc hs | stopWaitResult hpc pc hs _ | postStop hpc _ _ pc hs
    | postTaken hpc _ _ pc hs | postNext hpc _ pc hs =>
    simp [inWork, Thread.working, *]
  all_goals simp_all [inWork, Thread.working]

theorem passing_held {t : Thread} (h : t.pc.passing = true) : t.dataoffset ∈ held t := by
  have hh : t.holds = true := by
    cases hpc : t.pc <;> simp_all [Pc.passing, Thread.holds]
  simp [held, hh]

/-- What a module has accepted is what it has posted and what it has in its hand. -/
def AcceptInv (cfg : Config) (i j : ℕ) (s : State) : Prop :=
  s.accepted cfg i = jobs (s.mailed j) ++ inHand (s.thr i) s.chunk

theorem jobs_append (xs ys : List Msg) : jobs (xs ++ ys) = jobs xs ++ jobs ys :=
  List.filterMap_append

theorem Move.inHand (hi : Inv cfg s) (hst : StartInv cfg s.startView) (hs : SlotInv cfg s)
    (h : Move cfg s a s') (hk : k < cfg.modulesCnt) :
    inHand (s.thr k) s'.chunk = inHand (s.thr k) s.chunk := by
  unfold Pipeline.inHand
  split
  · rename_i hp
    rw [h.held_chunk hi hst hs hk (passing_held hp) (by rintro hc; simp [hc, Pc.passing] at hp)
      (by rintro hc; simp [hc, Pc.passing] at hp)]
  · rfl

theorem AcceptInv.own (hi : Inv cfg s) (hst : StartInv cfg s.startView)
    (hs : SlotInv cfg s) (hk : k < cfg.modulesCnt) (hn : cfg.next k = some j)
    (ha : AcceptInv cfg k j s) (h : ThreadMove cfg s k s') : AcceptInv cfg k j s' := by
  have hl := hi.link k j hn
  have hmail := h.mailed j
  have hfin := h.finished k
  unfold AcceptInv State.accepted at *
  by_cases hf : Finishing cfg s k
  · have hpc : (s.thr k).pc = .waitResult ∨ (s.thr k).pc = .readResult := hf.imp And.left id
    have hchunk := h.chunk_eq (by rcases hpc with hpc | hpc <;> simp [hpc])
    have hhand : inHand (s.thr k) s.chunk = [] := by
      rcases hpc with hpc | hpc <;> simp [inHand, hpc, Pc.passing]
    rw [if_neg (by rcases hpc with hpc | hpc <;> simp [hpc]), List.append_nil] at hmail
    rw [if_pos ⟨rfl, hf⟩] at hfin
    rw [hfin, hmail, List.filter_append, List.map_append, ha, hhand, hchunk, h.finishing hf]
    by_cases hacc : cfg.method k = some .sourceThread ∨ (s.proc k).cmdResult = 0
    · simp [inHand, Pc.passing, Config.accepts, hacc]
    · simp [inHand, Pc.passing, Config.accepts, hacc]
  · rw [if_neg fun hc => hf hc.2, List.append_nil] at hfin
    rw [hfin, ha, hmail, jobs_append]
    by_cases hpost : (s.thr k).pc = .postNext
    · rw [if_pos ⟨hn, Or.inl hpost⟩]
      have hcmd := hl.cmd_job (Or.inr (Pc.sendPhase_post.mpr hpost))
      have hoffs := hl.offs (Pc.sendPhase_post.mpr hpost)
      have hhand : inHand (s'.thr k) s'.chunk = [] := if_neg (by simp [h.not_passing hpost])
      rw [hhand]
      simp [jobs, Mailbox.letter, hcmd, hoffs, inHand, hpost, Pc.passing]
    · obtain ⟨hp, ho⟩ := h.passing hf hpost
      have hhand : inHand (s'.thr k) s'.chunk = inHand (s.thr k) s'.chunk := by
        unfold inHand
        rw [hp]
        split
        · rw [ho (by assumption)]
        · rfl
      rw [hhand, (Move.thread hk h).inHand hi hst hs hk]
      by_cases hstop : (s.thr k).pc = .stopPostNext
      · have hcmd := hl.cmd_stop (Or.inl (Pc.sendPhase_stopPost.mpr hstop))
        rw [if_pos ⟨hn, Or.inr hstop⟩]
        simp [jobs, Mailbox.letter, hcmd]
      · rw [if_neg fun hc => hc.2.elim hpost hstop]
        simp [jobs]

theorem acceptInv (ch : Chain cfg) {ok : State → Label → Prop} (h : (sys cfg).Reach ok s)
    (hn : cfg.next i = some j) : AcceptInv cfg i j s := by
  have hlt := Config.lt_of_next hn
  refine h.invariant (AcceptInv cfg i j) ?_ fun s a s' hr ha _ hstep => ?_
  · rintro s rfl
    rfl
  · have hi := reach_inv ch hr
    have hst := startInv hr
    have hs := slotInv ch hr
    have hmove := step_move ch hstep
    have hhand := hmove.inHand hi hst hs hlt
    cases hmove with
    | @thread k _ hk h =>
      by_cases hki : i = k
      · subst hki
        exact ha.own hi hst hs hk hn h
      · have hmail := h.mailed j
        have hfin := h.finished i
        rw [if_neg fun hc => hki (ch.next_inj hn hc.1), List.append_nil] at hmail
        rw [if_neg fun hc => hki hc.1.symm, List.append_nil] at hfin
        unfold AcceptInv State.accepted at *
        rw [hfin, hmail, h.thr_of_ne hki, hhand]
        exact ha
    | child h =>
      unfold AcceptInv State.accepted at *
      rw [h.finished, h.mailed, h.thr, hhand]
      exact ha
    | main h =>
      unfold AcceptInv State.accepted State.finished State.mailed at *
      rw [h.log, ha]
      congr 1
      rcases h.create_or with ⟨k, hm, hk, rfl⟩ | ⟨hthr, hbox⟩
      · by_cases hik : i = k
        · subst hik
          simp [inHand, createModule, hst.fresh hm, Pc.passing]
        · simp [inHand, createModule, hik]
      · rw [hthr, hhand]
    | destroy h => cases h <;> exact ha
    | raise => exact ha

theorem ThreadMove.read (h : ThreadMove cfg s k s') (hpc : (s.thr k).pc = .readOffset) :
    s'.thr k = ⟨.postResult, (s.thr k).cmd, (s.box k).dataoffset⟩ := by
  cases h
  case readOffset => simp
  all_goals simp_all

/-- The jobs a `process_thread` has taken are those it is over with and the one it works on. -/
def WorkInv (j : ℕ) (s : State) : Prop :=
  (jobs (s.taken j)).map Prod.fst = (s.finished j).map (fun x => x.1.1) ++ inWork (s.thr j)

theorem WorkInv.own (hi : Inv cfg s) (hn : cfg.next i = some k)
    (hm : cfg.method k = some .processThread) (hw : WorkInv k s) (h : ThreadMove cfg s k s') :
    WorkInv k s' := by
  have hl := hi.link i k hn
  have htake := h.taken hn hl
  have hfin := h.finished k
  unfold WorkInv at *
  by_cases hf : Finishing cfg s k
  · have hpc : (s.thr k).pc = .readResult := hf.resolve_left fun hc => by simp [hm] at hc
    rw [if_neg (by simp [hpc]), List.append_nil] at htake
    rw [if_pos ⟨rfl, hf⟩] at hfin
    rw [hfin, htake, hw, h.finishing hf]
    by_cases hr : (s.proc k).cmdResult = 0 <;>
      simp [inWork, Thread.working, hpc, hm, hr]
  · rw [if_neg fun hc => hf hc.2, List.append_nil] at hfin
    rw [hfin, htake, jobs_append, List.map_append, hw]
    by_cases hpc : (s.thr k).pc = .readOffset
    · have hcmd := hl.read (Pc.recvPhase_offset.mpr hpc)
      rw [if_pos ⟨rfl, hpc⟩, h.read hpc]
      cases hc : (s.box k).cmd <;>
        simp [inWork, Thread.working, hpc, hcmd, hc, jobs, Mailbox.letter]
    · rw [if_neg fun hc => hpc hc.2, h.working hm hf hpc]
      simp [jobs]

theorem workInv (ch : Chain cfg) {ok : State → Label → Prop} (h : (sys cfg).Reach ok s)
    (hm : cfg.method j = some .processThread) : WorkInv j s := by
  have hj := lt_of_method hm
  obtain ⟨i, hn⟩ := ch.exists_pred hj fun he => by
    rw [← ch.source_iff hj, hm] at he
    simp at he
  refine h.invariant (WorkInv j) ?_ fun s a s' hr hw _ hstep => ?_
  · rintro s rfl
    rfl
  · have hi := reach_inv ch hr
    have hmove := step_move ch hstep
    cases hmove with
    | @thread k _ hk h =>
      by_cases hkj : j = k
      · subst hkj
        exact hw.own hi hn hm h
      · have htake := h.taken hn (hi.link i j hn)
        have hfin := h.finished j
        rw [if_neg fun hc => hkj hc.1.symm, List.append_nil] at htake
        rw [if_neg fun hc => hkj hc.1.symm, List.append_nil] at hfin
        unfold WorkInv at *
        rw [hfin, htake, h.thr_of_ne hkj]
        exact hw
    | child h =>
      unfold WorkInv at *
      rw [h.finished, h.taken, h.thr]
      exact hw
    | main h =>
      unfold WorkInv State.finished State.taken at *
      rw [h.log, hw]
      congr 1
      rcases h.create_or with ⟨k, hm, hk, rfl⟩ | ⟨hthr, hbox⟩
      · by_cases hik : j = k
        · subst hik
          simp [inWork, createModule, (startInv hr).fresh hm, Thread.working]
        · simp [inWork, createModule, hik]
      · rw [hthr]
    | destroy h => cases h <;> exact hw
    | raise => exact hw

theorem SendMove.unread {t t' r : Thread} {b b' : Mailbox} (h : SendMove t t' b b')
    (hl : LinkInv t b r) (hu : Unread b r.pc) : b'.cmd = b.cmd ∧ b'.dataoffset = b.dataoffset := by
  obtain ⟨htok, hjob, hoffs, hstop, hread, hiff⟩ := hl
  cases h with
  | cmd h h' | offset h h' ho | stopCmd h h' =>
    exact absurd hu (by grind [Unread, SendPhase.writing, RecvPhase.reading])
  | _ => exact ⟨rfl, rfl⟩

theorem Move.unread_box (ch : Chain cfg) (hi : Inv cfg s) (hst : StartInv cfg s.startView)
    (hj : j < cfg.modulesCnt) (h : Move cfg s a s') (hu : Unread (s.box j) (s.thr j).pc) :
    (s'.box j).cmd = (s.box j).cmd ∧ (s'.box j).dataoffset = (s.box j).dataoffset := by
  have hm : cfg.method j ≠ some .sourceThread := fun hm => hi.head_read hm hu
  obtain ⟨i, hn⟩ := ch.exists_pred hj fun he => hm ((ch.source_iff hj).mpr he)
  cases h with
  | @thread k _ hk h =>
    by_cases hki : k = i
    · subst hki
      have hsend := h.send hn (ch.next_ne_self hn) fun hm => by
        simp [(ch.next_none_iff hk).mpr hm] at hn
      exact hsend.unread (hi.link k j hn) hu
    · by_cases hkj : k = j
      · subst hkj
        have hrecv := h.recv (fun hn' => ch.next_ne_self hn' rfl) hm
        generalize s'.box k = b' at hrecv ⊢
        cases hrecv <;> exact ⟨rfl, rfl⟩
      · rw [h.box_of_ne (Ne.symm hkj) fun hn' => hki (ch.next_inj hn' hn)]
        exact ⟨rfl, rfl⟩
  | child h =>
    rw [h.box]
    exact ⟨rfl, rfl⟩
  | main h =>
    rcases h.create_or with ⟨k, hm, hk, rfl⟩ | ⟨hthr, hbox⟩
    · by_cases hjk : j = k
      · subst hjk
        have hnew := hi.newCmd_uninit ch hk (hst.fresh hm)
        simp [Unread, hnew, hst.fresh hm, Pc.recvPhase] at hu
      · simp [createModule, hjk]
    · rw [hbox]
      exact ⟨rfl, rfl⟩
  | destroy h => cases h <;> exact ⟨rfl, rfl⟩
  | raise => exact ⟨rfl, rfl⟩

theorem ThreadMove.starting_of (h : ThreadMove cfg s k s')
    (hs : (s'.thr k).pc.starting = true) : (s.thr k).pc.starting = true := by
  cases h
  case startPost pc hs' | stopWaitResult pc hs' _ | postStop pc hs' | postTaken pc hs'
    | postNext pc hs' =>
    simp only [State.goto, State.setBox, State.setProc, State.emit, Function.update_self, hs'] at hs
    split at hs <;> simp [Pc.starting] at hs
  case checkExit | checkState | readResult =>
    simp only [State.goto, State.emit, Function.update_self] at hs
    split at hs <;> simp [Pc.starting] at hs
  all_goals simp_all [Pc.starting]

/-- A thread that is still starting has posted nothing. -/
theorem mailed_starting (ch : Chain cfg) {ok : State → Label → Prop} (h : (sys cfg).Reach ok s)
    (hn : cfg.next i = some j) : (s.thr i).pc.starting = true → s.mailed j = [] := by
  refine h.invariant (fun s => (s.thr i).pc.starting = true → s.mailed j = []) ?_
    fun s a s' hr hm _ hstep hs => ?_
  · rintro s rfl _
    rfl
  · have hmove := step_move ch hstep
    cases hmove with
    | @thread k _ hk h =>
      have hmail := h.mailed j
      by_cases hik : i = k
      · subst hik
        have hs0 := h.starting_of hs
        rw [if_neg fun hc => by rcases hc.2 with hpc | hpc <;> simp [hpc, Pc.starting] at hs0,
          List.append_nil] at hmail
        rw [hmail]
        exact hm hs0
      · rw [if_neg fun hc => hik (ch.next_inj hn hc.1), List.append_nil] at hmail
        rw [hmail]
        exact hm (h.thr_of_ne hik ▸ hs)
    | child h =>
      rw [h.mailed]
      exact hm (h.thr ▸ hs)
    | main h =>
      simp only [State.mailed, h.log]
      rcases h.create_or with ⟨k, hm', hk, rfl⟩ | ⟨hthr, hbox⟩
      · by_cases hik : i = k
        · subst hik
          exact hm (by simp [(startInv hr).fresh hm', Pc.starting])
        · exact hm (by simpa [createModule, hik] using hs)
      · exact hm (hthr ▸ hs)
    | destroy h => cases h <;> exact hm hs
    | raise => exact hm hs

end Passing

/-! ### The delivery theorem -/

section Delivery

variable {cfg : Config} {s s' : State} {i j k : ℕ} {a : Label}

/-- No module thread runs: none is left, or it was never started. -/
def Over (cfg : Config) (s : State) : Prop :=
  ∀ k, k < cfg.modulesCnt → (s.thr k).pc = .uninit ∨ (s.thr k).pc.returned

theorem accepted_eq_taken (ch : Chain cfg) {ok : State → Label → Prop} (h : (sys cfg).Reach ok s)
    (hn : cfg.next i = some j) (ho : Over cfg s) : jobs (s.taken j) = s.accepted cfg i := by
  have hacc := acceptInv ch h hn
  have hgood := channel_good ch h hn
  have hl := (reach_inv ch h).link i j hn
  have hhand : inHand (s.thr i) s.chunk = [] := by
    rcases ho i (Config.lt_of_next hn) with hpc | hpc | hpc <;> simp [inHand, hpc, Pc.passing]
  rw [AcceptInv, hhand, List.append_nil] at hacc
  rw [hacc]
  unfold Channel.Good State.channel at hgood
  simp only at hgood
  by_cases hs : (s.thr i).pc.starting = true
  · rw [mailed_starting ch h hn hs] at hgood ⊢
    rw [(List.append_eq_nil_iff.mp hgood.symm).1]
  · have hdone : (s.thr i).pc = .done := by
      rcases ho i (Config.lt_of_next hn) with hpc | hpc | hpc
      · simp [hpc, Pc.starting] at hs
      · exact hpc
      · simp [hpc, Pc.starting] at hs
    have hcmd := hl.cmd_stop (Or.inr (by rw [hdone]; rfl))
    rw [hgood, jobs_append]
    have hpend : jobs (s.pending j).toList = [] := by
      unfold State.pending pendingLetter
      split <;> simp [jobs, Mailbox.letter, hcmd]
    rw [hpend, List.append_nil]

/-- The offsets of the jobs a module has taken. -/
def State.takenOffs (s : State) (j : ℕ) : List ℕ := (jobs (s.taken j)).map Prod.fst

/-- The offsets of the jobs a module has completed. -/
def State.finishedOffs (s : State) (i : ℕ) : List ℕ := (s.finished i).map fun x => x.1.1

theorem worked_isPrefix (ch : Chain cfg) {ok : State → Label → Prop} (h : (sys cfg).Reach ok s)
    (hm : cfg.method j = some .processThread) : s.finishedOffs j <+: s.takenOffs j :=
  ⟨_, (workInv ch h hm).symm⟩

theorem worked_eq (ch : Chain cfg) {ok : State → Label → Prop} (h : (sys cfg).Reach ok s)
    (hm : cfg.method j = some .processThread) (ho : Over cfg s) :
    s.finishedOffs j = s.takenOffs j := by
  have hw := workInv ch h hm
  have hwork : inWork (s.thr j) = [] := by
    rcases ho j (lt_of_method hm) with hpc | hpc | hpc <;> simp [inWork, hpc, Thread.working]
  rw [WorkInv, hwork, List.append_nil] at hw
  exact hw.symm

theorem taken_isPrefix (ch : Chain cfg) {ok : State → Label → Prop} (h : (sys cfg).Reach ok s)
    (hn : cfg.next i = some j) : jobs (s.taken j) <+: s.accepted cfg i := by
  have hacc := acceptInv ch h hn
  have hgood := channel_good ch h hn
  unfold Channel.Good State.channel at hgood
  simp only at hgood
  rw [AcceptInv, hgood, jobs_append, List.append_assoc] at hacc
  exact ⟨_, hacc.symm⟩

theorem accepted_sublist : ((s.accepted cfg i).map Prod.fst).Sublist (s.finishedOffs i) := by
  unfold State.accepted State.finishedOffs
  rw [List.map_map]
  exact List.filter_sublist.map _

/-- The completed jobs are the accepted and the rejected ones. -/
theorem accepted_rejected (cfg : Config) (s : State) (i : ℕ) : (↑(s.finishedOffs i) : Multiset ℕ) =
    ↑((s.accepted cfg i).map Prod.fst) + ↑((s.rejected cfg i).map Prod.fst) := by
  unfold State.accepted State.rejected State.finishedOffs
  rw [List.map_map, List.map_map, Multiset.coe_add, ← List.map_append]
  exact Multiset.coe_eq_coe.mpr ((List.filter_append_perm _ _).symm.map _)

/-- What reaches a module has been captured by the head, in this order. -/
theorem taken_sublist (ch : Chain cfg) {ok : State → Label → Prop} (h : (sys cfg).Reach ok s)
    (hn : cfg.next i = some j) : (s.takenOffs j).Sublist (s.finishedOffs ch.head) := by
  have hstep : (s.takenOffs j).Sublist (s.finishedOffs i) :=
    ((taken_isPrefix ch h hn).sublist.map _).trans accepted_sublist
  induction hp : ch.pos i generalizing i j with
  | zero => exact ch.eq_head (Config.lt_of_next hn) hp ▸ hstep
  | succ p ih =>
    obtain ⟨i', hn'⟩ := ch.exists_pred (Config.lt_of_next hn) fun he => by
      rw [he, ch.pos_head] at hp
      omega
    have hpos := ch.pos_next hn'
    have hwork := worked_isPrefix ch h (ch.method_between hn' hn)
    have hprev := ((taken_isPrefix ch h hn').sublist.map Prod.fst).trans accepted_sublist
    exact hstep.trans (hwork.sublist.trans (ih hn' hprev (by omega)))

/-- The offsets rejected at the places between the head and the place `p`. -/
def rejectedBefore (ch : Chain cfg) (s : State) (p : ℕ) : Multiset ℕ :=
  ∑ q ∈ Finset.Ico 1 p, ↑((s.rejected cfg (ch.path.getD q 0)).map Prod.fst)

/-- Once no thread runs, what has not reached a module has been rejected on the way. -/
theorem taken_add_rejected (ch : Chain cfg) {ok : State → Label → Prop}
    (h : (sys cfg).Reach ok s) (hn : cfg.next i = some j) (ho : Over cfg s) :
    (↑(s.finishedOffs ch.head) : Multiset ℕ) =
      ↑(s.takenOffs j) + rejectedBefore ch s (ch.pos j) := by
  have hacc : s.takenOffs j = (s.accepted cfg i).map Prod.fst := by
    rw [State.takenOffs, accepted_eq_taken ch h hn ho]
  have hpos := ch.pos_next hn
  induction hp : ch.pos i generalizing i j with
  | zero =>
    obtain rfl := ch.eq_head (Config.lt_of_next hn) hp
    have hrej : s.rejected cfg ch.head = [] := by
      simp [State.rejected, Config.accepts, ch.method_head]
    have hsplit := accepted_rejected cfg s ch.head
    rw [hrej, ← hacc] at hsplit
    rw [hsplit, hpos, hp]
    simp [rejectedBefore]
  | succ p ih =>
    obtain ⟨i', hn'⟩ := ch.exists_pred (Config.lt_of_next hn) fun he => by
      rw [he, ch.pos_head] at hp
      omega
    have hpos' := ch.pos_next hn'
    have hwork := worked_eq ch h (ch.method_between hn' hn) ho
    have hprev : s.takenOffs i = (s.accepted cfg i').map Prod.fst := by
      rw [State.takenOffs, accepted_eq_taken ch h hn' ho]
    have hsplit := accepted_rejected cfg s i
    rw [ih hn' hprev hpos' (by omega), ← hwork, hsplit, ← hacc, hpos, rejectedBefore,
      rejectedBefore, Finset.sum_Ico_succ_top (by omega), add_assoc]
    congr 1
    have hpath : ch.path.getD (ch.pos i) 0 = i := by
      rw [List.getD_eq_getElem?_getD, ch.path_pos (Config.lt_of_next hn), Option.getD_some]
    rw [hpath, add_comm]

/-- The delivery along a chain in a state: at every moment a prefix in order,
once no thread runs exactly what was not rejected, and no letter is overwritten
before it is read. -/
structure Delivered (ch : Chain cfg) (s : State) : Prop where
  in_order : ∀ i j, cfg.next i = some j → jobs (s.taken j) <+: s.accepted cfg i
  worked : ∀ j, cfg.method j = some .processThread → s.finishedOffs j <+: s.takenOffs j
  captured : ∀ i j, cfg.next i = some j → (s.takenOffs j).Sublist (s.finishedOffs ch.head)
  read_once : ∀ i j, cfg.next i = some j → s.taken j <+: s.mailed j ∧
    (s.mailed j).length ≤ (s.taken j).length + 1
  kept : ∀ a s', step cfg s a = some s' → ∀ j < cfg.modulesCnt,
    Unread (s.box j) (s.thr j).pc →
      (s'.box j).cmd = (s.box j).cmd ∧ (s'.box j).dataoffset = (s.box j).dataoffset
  complete : Over cfg s → ∀ i j, cfg.next i = some j → jobs (s.taken j) = s.accepted cfg i
  missing : Over cfg s → ∀ i j, cfg.next i = some j → (↑(s.finishedOffs ch.head) : Multiset ℕ) =
    ↑(s.takenOffs j) + rejectedBefore ch s (ch.pos j)

theorem delivery (ch : Chain cfg) (h : (sys cfg).Reach Lts.anyStep s) : Delivered ch s where
  in_order _ _ hn := taken_isPrefix ch h hn
  worked _ hm := worked_isPrefix ch h hm
  captured _ _ hn := taken_sublist ch h hn
  read_once _ _ hn :=
    ⟨(channel_good ch h hn).received_isPrefix, (channel_good ch h hn).length_le⟩
  kept _ _ hs _ hj hu := (step_move ch hs).unread_box ch (reach_inv ch h) (startInv h) hj hu
  complete ho _ _ hn := accepted_eq_taken ch h hn ho
  missing ho _ _ hn := taken_add_rejected ch h hn ho

/-- The head completes one job, the second module rejects it with 5, then the
exit flag is set and all threads return. -/
def rejectedJob : List Label :=
  List.flatten [startLabels 3, List.replicate 8 (.thread 0),
    [.child 0, .child 0, .write 0 [65, 0, 0, 0], .ret 0 0, .child 0],
    List.replicate 5 (.thread 0), List.replicate 7 (.thread 1),
    [.child 1, .child 1, .ret 1 5, .child 1], List.replicate 4 (.thread 1), [.raise],
    List.replicate 6 (.thread 0), [.child 0, .child 0, .child 0], List.replicate 2 (.thread 0),
    List.replicate 9 (.thread 1), [.child 1, .child 1, .child 1, .thread 1],
    List.replicate 5 (.thread 2)]

theorem delivery_rejected :
    ∃ s, (sys (threeModules some fun _ => true)).Reach Lts.anyStep s ∧
      (∀ k, k < 3 → (s.thr k).pc = .done) ∧ s.finishedOffs 0 = [512] ∧ s.takenOffs 2 = [] ∧
      Delivered (threeModules.chain some fun _ => true) s := by
  have hreach := Lts.reach_exec (sys (threeModules some fun _ => true)) Lts.anyStep
    rejectedJob rfl (by decide) fun _ _ _ => trivial
  refine ⟨_, hreach, ?_, ?_, ?_, delivery (threeModules.chain some fun _ => true) hreach⟩
  all_goals decide

end Delivery

end TmkDcl.Pipeline
