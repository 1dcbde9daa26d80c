import TmkDcl.Pipeline.Contract
import TmkDcl.Pipeline.Delivery

/-!
# The shutdown of a fully started pipeline

The stop command runs down the links: it is the last letter of every mailbox and
the last command of every child. Nobody is left behind on the way: in a state in
which no thread and no child can move, a thread that waits for the next module
waits for one that waits itself, down to the `finalization_thread`, which does
not wait for anybody; so all wait for letters, and the head for a slot. Then no
slot is under way and the ring is full, against the wait of the head.
-/

namespace TmkDcl.Pipeline

/-- The thread has posted the stop command to its child. -/
def Pc.stopAsked : Pc → Bool
  | .stopWaitResult | .setInit | .done => true
  | _ => false

section Closing

variable {cfg : Config} {s s' : State} {i j k : ℕ} {a : Label}

/-- The stop command is the last letter of a sender. -/
def MailClosed (i j : ℕ) (s : State) : Prop :=
  EndsOnce (· = Msg.stop) ((s.thr i).pc.sendPhase = .stopped) (s.mailed j)

/-- The stop command is the last letter of a receiver. -/
def TakenClosed (j : ℕ) (s : State) : Prop :=
  EndsOnce (· = Msg.stop) (GotStop (s.thr j)) (s.taken j)

/-- The stop command is the last command of a child. -/
def AskedClosed (i : ℕ) (s : State) : Prop :=
  EndsOnce (fun x : Cmd × ℕ => x.1 = .stop) ((s.thr i).pc.stopAsked = true) (s.asked i)

theorem MailClosed.own (ch : Chain cfg) (hi : Inv cfg s) (hn : cfg.next k = some j)
    (hc : MailClosed k j s) (h : ThreadMove cfg s k s') : MailClosed k j s' := by
  have hl := hi.link k j hn
  have hmail := h.mailed j
  have hsend := h.send hn (ch.next_ne_self hn) fun hm => by
    simp [(ch.next_none_iff (Config.lt_of_next hn)).mpr hm] at hn
  simp only [← Pc.sendPhase_post, ← Pc.sendPhase_stopPost] at hmail
  unfold MailClosed at *
  generalize s'.box j = b' at hsend
  cases hsend with
  | stay hp hp' =>
    rw [if_neg fun hc => by rcases hp with hp | hp <;> simp [hp] at hc, List.append_nil] at hmail
    rw [hmail, hp']
    exact hc
  | post hp hp' =>
    have hcmd := hl.cmd_job (Or.inr hp)
    rw [if_pos ⟨hn, Or.inl hp⟩] at hmail
    rw [hmail]
    exact hc.put (by simp [hp]) (by simp [hp']) (by simp [Mailbox.letter, hcmd])
  | stopPost hp hp' =>
    have hcmd := hl.cmd_stop (Or.inl hp)
    rw [if_pos ⟨hn, Or.inr hp⟩] at hmail
    rw [hmail]
    exact hc.close (by simp [hp]) hp' (by simp [Mailbox.letter, hcmd])
  | wait hp hr hp' =>
    rw [if_neg fun hc => by simp [hp] at hc, List.append_nil] at hmail
    rw [hmail]
    exact hc.congr (by rcases hp' with hp' | hp' <;> simp [hp, hp'])
  | cmd hp hp' | offset hp hp' _ | stopCmd hp hp' =>
    rw [if_neg fun hc => by simp [hp] at hc, List.append_nil] at hmail
    rw [hmail]
    exact hc.congr (by simp [hp, hp'])

theorem TakenClosed.own (ch : Chain cfg) (hi : Inv cfg s) (hn : cfg.next i = some k)
    (hc : TakenClosed k s) (h : ThreadMove cfg s k s') : TakenClosed k s' := by
  have hl := hi.link i k hn
  have htake := h.taken hn hl
  have hrecv := h.recv (fun hn' => ch.next_ne_self hn' rfl) fun hm =>
    ch.next_ne_head hn ((ch.source_iff (lt_of_method hm)).mp hm)
  simp only [← Pc.recvPhase_offset] at htake
  unfold TakenClosed at *
  generalize s'.box k = b' at hrecv
  cases hrecv with
  | offset hp hp' hc' ho =>
    rw [if_pos ⟨trivial, hp⟩] at htake
    rw [htake]
    have hopen : ¬ GotStop (s.thr k) := by simp [GotStop, hp]
    have hread := hl.read hp
    cases hcmd : (s.box k).cmd with
    | stop =>
      exact hc.close hopen (Or.inl ⟨hp', by rw [hc', hread, hcmd]⟩) (by simp [Mailbox.letter, hcmd])
    | job =>
      exact hc.put hopen (by simp [GotStop, hp', hc', hread, hcmd]) (by simp [Mailbox.letter, hcmd])
  | stay hp hp' =>
    rw [if_neg fun hc => by rcases hp with hp | hp <;> simp [hp] at hc, List.append_nil] at htake
    rw [htake]
    exact hc.congr (by rcases hp with hp | hp <;> simp [GotStop, hp', hp])
  | wait hp _ hp' | cmd hp hp' _ =>
    rw [if_neg fun hc => by simp [hp] at hc, List.append_nil] at htake
    rw [htake]
    exact hc.congr (by simp [GotStop, hp, hp'])
  | post hp hcmd hp' | postStop hp hcmd hp' =>
    rw [if_neg fun hc => by simp [hp] at hc, List.append_nil] at htake
    rw [htake]
    exact hc.congr (by simp [GotStop, hp, hp', hcmd])

theorem ThreadMove.stopAsked (h : ThreadMove cfg s k s')
    (hm : cfg.method k ≠ some .finalizationThread) : (s'.thr k).pc.stopAsked = true ↔
      (s.thr k).pc.stopAsked = true ∨ (s.thr k).pc = .stopPostJob := by
  cases h
  case startPost hpc pc hs | stopWaitResult hpc pc hs _ | postStop hpc _ _ pc hs
    | postTaken hpc _ _ pc hs | postNext hpc _ pc hs =>
    simp only [State.goto, State.setBox, State.setProc, State.emit, Function.update_self, hs, hpc]
    split <;> simp_all [Pc.stopAsked]
  case checkExit hpc _ | checkState hpc _ | readResult hpc _ =>
    simp only [State.goto, State.emit, Function.update_self, hpc]
    split <;> simp [Pc.stopAsked]
  all_goals simp_all [Pc.stopAsked]

theorem AskedClosed.own (hi : Inv cfg s) (hm : cfg.method k ≠ some .finalizationThread)
    (hc : AskedClosed k s) (h : ThreadMove cfg s k s') : AskedClosed k s' := by
  have hjob := hi.job k
  have hask := h.asked k
  have hiff := h.stopAsked hm
  unfold AskedClosed at *
  by_cases h1 : (s.thr k).pc = .postJob
  · have hcmd := hjob.cmd_job (Or.inr (Or.inl (by rw [h1]; rfl)))
    rw [if_pos ⟨rfl, Or.inl h1⟩] at hask
    rw [hask]
    have hopen : ¬ (s.thr k).pc.stopAsked = true := by simp [h1, Pc.stopAsked]
    exact hc.put hopen (by rw [hiff]; simp [h1, Pc.stopAsked]) (by simp [hcmd])
  by_cases h2 : (s.thr k).pc = .stopPostJob
  · have hcmd := hjob.cmd_stop (Or.inl (by rw [h2]; rfl))
    rw [if_pos ⟨rfl, Or.inr h2⟩] at hask
    rw [hask]
    exact hc.close (by simp [h2, Pc.stopAsked]) (hiff.mpr (Or.inr h2)) (by simp [hcmd])
  · rw [if_neg fun hc => hc.2.elim h1 h2, List.append_nil] at hask
    rw [hask]
    exact hc.congr (by simp [hiff, h2])

end Closing

/-! ### Nobody is stuck -/

section Progress

variable {cfg : Config} {s s' : State} {i j k : ℕ} {a : Label}

/-- A step of a module thread or of a child. -/
def moduleStep (_ : State) (a : Label) : Prop :=
  ∃ i, a = .thread i ∨ a = .child i ∨ a = .ret i 0

/-- What a thread of a chain that cannot move waits for. -/
inductive Blocked (cfg : Config) (s : State) (k : ℕ) : Prop
  | idle (hpc : (s.thr k).pc = .uninit)
  | returned (hpc : (s.thr k).pc.returned)
  | slot (hpc : (s.thr k).pc = .popWait) (hm : cfg.method k = some .sourceThread)
      (hr : s.ring.sem = 0)
  | letter (hpc : (s.thr k).pc = .waitCmd) (hm : cfg.method k ≠ some .sourceThread)
      (hr : (s.box k).newCmd = 0)
  | result (hpc : (s.thr k).pc.waitsResult) (hr : (s.proc k).semResult = 0)
  | outside (hpc : (s.thr k).pc = .push) (hin : ¬ s.ring.PushInside)
  | next (j : ℕ) (hpc : (s.thr k).pc = .waitNext ∨ (s.thr k).pc = .stopWaitNext)
      (hn : cfg.next k = some j) (hr : (s.box j).result = 0)

section Statements

variable {pc : Pc}

theorem waitNext_none (hn : cfg.next k = some j) (h : waitNext cfg s k pc = none) :
    (s.box j).result = 0 := by
  simp only [waitNext, hn, Option.bind_some] at h
  split at h
  · cases h
  · omega

theorem waitResult_none (h : waitResult s k pc = none) : (s.proc k).semResult = 0 := by
  unfold waitResult at h
  split at h
  · cases h
  · omega

theorem waitCmd_none (h : waitCmd s k pc = none) : (s.box k).newCmd = 0 := by
  unfold waitCmd at h
  split at h
  · cases h
  · omega

theorem ringWait_none (h : ringWait s k pc = none) : s.ring.sem = 0 := by
  unfold ringWait at h
  split at h
  · cases h
  · omega

theorem ringPut_none (h : ringPut s k pc = none) : ¬ s.ring.PushInside := by
  intro hin
  unfold ringPut at h
  rw [if_pos hin] at h
  cases h

theorem startExternal_ne_none : startExternal cfg s k ≠ none := by
  unfold startExternal
  cases cfg.processStart k <;> simp

theorem startInternal_ne_none : startInternal cfg s k ≠ none := by
  unfold startInternal
  cases cfg.processStart k <;> simp

end Statements

theorem sourceThread_blocked (hi : Inv cfg s) (hm : cfg.method k = some .sourceThread)
    (hn : cfg.next k = some j) (h : sourceThread cfg s k = none) : Blocked cfg s k := by
  have hruns := hi.runs k _ hm
  simp only [sourceThread] at h
  cases hpc : (s.thr k).pc <;> simp only [hpc] at h hruns
  case uninit => exact .idle hpc
  case failed | done => exact .returned (by simp [Pc.returned, hpc])
  case popWait => exact .slot hpc hm (ringWait_none h)
  case waitResult => exact .result (Or.inl hpc) (waitResult_none (Option.map_eq_none_iff.mp h))
  case stopWaitResult => exact .result (Or.inr hpc) (waitResult_none h)
  case waitNext => exact .next j (Or.inl hpc) hn (waitNext_none hn h)
  case stopWaitNext => exact .next j (Or.inr hpc) hn (waitNext_none hn h)
  case start => exact absurd h startExternal_ne_none
  case putCmd | putOffset | postNext | stopPutCmd | stopPostNext =>
    simp [putCmd, putOffset, postNext, hn] at h
  all_goals first | exact absurd hruns Bool.false_ne_true | cases h

theorem processThread_blocked (hi : Inv cfg s) (hm : cfg.method k = some .processThread)
    (hn : cfg.next k = some j) (h : processThread cfg s k = none) : Blocked cfg s k := by
  have hruns := hi.runs k _ hm
  simp only [processThread] at h
  cases hpc : (s.thr k).pc <;> simp only [hpc] at h hruns
  case uninit => exact .idle hpc
  case failed | done => exact .returned (by simp [Pc.returned, hpc])
  case waitCmd => exact .letter hpc (by simp [hm]) (waitCmd_none h)
  case push => exact .outside hpc (ringPut_none h)
  case waitResult => exact .result (Or.inl hpc) (waitResult_none h)
  case stopWaitResult => exact .result (Or.inr hpc) (waitResult_none h)
  case waitNext => exact .next j (Or.inl hpc) hn (waitNext_none hn h)
  case stopWaitNext => exact .next j (Or.inr hpc) hn (waitNext_none hn h)
  case start => exact absurd h startExternal_ne_none
  case putCmd | putOffset | postNext | stopPutCmd | stopPostNext =>
    simp [putCmd, putOffset, postNext, hn] at h
  all_goals first | exact absurd hruns Bool.false_ne_true | cases h

theorem finalizationThread_blocked (hi : Inv cfg s)
    (hm : cfg.method k = some .finalizationThread) (h : finalizationThread cfg s k = none) :
    Blocked cfg s k := by
  have hruns := hi.runs k _ hm
  simp only [finalizationThread] at h
  cases hpc : (s.thr k).pc <;> simp only [hpc] at h hruns
  case uninit => exact .idle hpc
  case done => exact .returned (by simp [Pc.returned, hpc])
  case waitCmd => exact .letter hpc (by simp [hm]) (waitCmd_none h)
  case push => exact .outside hpc (ringPut_none h)
  case start => exact absurd h startInternal_ne_none
  all_goals first | exact absurd hruns Bool.false_ne_true | cases h

theorem blocked_of_none (ch : Chain cfg) (hi : Inv cfg s) (hk : k < cfg.modulesCnt)
    (h : threadStep cfg s k = none) : Blocked cfg s k := by
  have hnext : cfg.method k ≠ some .finalizationThread → ∃ j, cfg.next k = some j := fun hm =>
    Option.ne_none_iff_exists'.mp fun hn => hm ((ch.next_none_iff hk).mp hn)
  unfold threadStep at h
  rcases ch.method_cases hk with hm | hm | hm <;> simp only [hm] at h
  · obtain ⟨j, hn⟩ := hnext (by simp [hm])
    exact sourceThread_blocked hi hm hn h
  · obtain ⟨j, hn⟩ := hnext (by simp [hm])
    exact processThread_blocked hi hm hn h
  · exact finalizationThread_blocked hi hm h

/-- A thread that waits for a result is not stuck as long as its child can bring it. -/
theorem Answers.enabled (h : Answers cfg i s) (hr : (s.proc i).semResult = 0) :
    (sys cfg).Enabled moduleStep s := by
  obtain ⟨t, ht, hpos, -⟩ := h
  rcases Relation.ReflTransGen.cases_head ht with rfl | ⟨u, ⟨a, ha, hs⟩, -⟩
  · omega
  · exact ⟨u, a, ⟨i, ha.elim (fun h => Or.inr (Or.inl h)) fun h => Or.inr (Or.inr h)⟩, hs⟩

/-- In a stuck chain everything is over, or all wait for a letter and the head for a slot. -/
theorem Blocked.waiting (h : Blocked cfg s k) (hrun : (s.thr k).pc.running = true)
    (hnext : ¬ ((s.thr k).pc = .waitNext ∨ (s.thr k).pc = .stopWaitNext))
    (hres : (s.thr k).pc.waitsResult → (s.proc k).semResult ≠ 0)
    (hpush : (s.thr k).pc = .push → s.ring.PushInside) :
    (s.thr k).pc = .done ∨ (s.thr k).pc = .popWait ∧ cfg.method k = some .sourceThread ∧
      s.ring.sem = 0 ∨ (s.thr k).pc = .waitCmd ∧ cfg.method k ≠ some .sourceThread ∧
      (s.box k).newCmd = 0 := by
  cases h with
  | idle hpc => simp [hpc, Pc.running] at hrun
  | returned hpc =>
    rcases hpc with hpc | hpc
    · exact Or.inl hpc
    · simp [hpc, Pc.running] at hrun
  | slot hpc hm hr => exact Or.inr (Or.inl ⟨hpc, hm, hr⟩)
  | letter hpc hm hr => exact Or.inr (Or.inr ⟨hpc, hm, hr⟩)
  | result hpc hr => exact absurd hr (hres hpc)
  | outside hpc hin => exact absurd (hpush hpc) hin
  | next j hpc hn hr => exact absurd hpc hnext

/-- All modules of the pipeline have been started. -/
def Started (s : State) : Prop := s.main.starting = none

instance (s : State) : Decidable (Started s) := inferInstanceAs (Decidable (_ = _))

theorem running_of_started (hst : StartInv cfg s.startView)
    (hall : ∀ i, i < cfg.modulesCnt → cfg.processStart i ≠ none) (hs : Started s)
    (hk : k < cfg.modulesCnt) : (s.thr k).pc.running = true := by
  rcases hst.over_cases hs with hreal | ⟨hf, -⟩
  · exact hst.running (hreal ▸ hk)
  · exact absurd hf.none (hall _ hf.lt)

/-- The places behind the last module have no child. -/
theorem ChildMove.lt (h : ChildMove cfg s k a s') (hi : Inv cfg s)
    (hst : StartInv cfg s.startView) : k < cfg.modulesCnt := by
  by_contra hk
  have hu : (s.thr k).pc = .uninit := (hst.modules k).uninit.mpr (Or.inl (Nat.le_of_not_lt hk))
  have habs : (s.child k).pc = .absent := (hi.job k).absent (by rw [hu]; rfl)
  cases h <;> simp_all

theorem not_enabled (hthread : ∀ i, threadStep cfg s i = none)
    (hchild : ∀ i, pipelineProcess cfg s i = none) (hret : ∀ i, actionReturn cfg s i 0 = none) :
    ¬ (sys cfg).Enabled moduleStep s := by
  intro ⟨t, a, ⟨i, hi⟩, ht⟩
  rcases hi with rfl | rfl | rfl
  · exact Option.some_ne_none t (ht.symm.trans (hthread i))
  · exact Option.some_ne_none t (ht.symm.trans (hchild i))
  · exact Option.some_ne_none t (ht.symm.trans (hret i))

end Progress

end TmkDcl.Pipeline
