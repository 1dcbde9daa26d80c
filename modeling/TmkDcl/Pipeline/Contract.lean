import TmkDcl.Channel
import TmkDcl.Pipeline.Log

/-!
# The contract between a module and its child

The process entry carries two one-place channels: the commands that the module
posts with `sem_job`, and the results that the child posts with `sem_result`.
Both are in order and loss-free in every run. Whether a module that waits gets
its result depends on the child being there: a child leaves its loop after
`PROCESS_CMD_STOP`, but also when the action stores -1 (`pipeline_client.c:126-131`),
and the module does not learn of that.
-/

namespace TmkDcl.Pipeline

/-- The child has a command and has not answered it. -/
def ChildPc.reading : ChildPc → Bool
  | .readCmd | .action => true
  | _ => false

/-- The child is about to post its result. -/
def ChildPc.posting : ChildPc → Bool
  | .post _ => true
  | _ => false

/-- The command under way to its answer. -/
def outstanding (p : ProcessInfo) (c : Child) : Option (Cmd × ℕ) :=
  if 0 < p.semJob ∨ c.pc.reading = true then some (p.cmd, p.cmdOffs) else none

/-- The result under way to the module. -/
def pendingResult (p : ProcessInfo) (c : Child) : Option ℤ :=
  if 0 < p.semResult ∨ c.pc.posting = true then some p.cmdResult else none

namespace State

def requests (s : State) (i : ℕ) : Channel (Cmd × ℕ) :=
  ⟨s.asked i, outstanding (s.proc i) (s.child i), (s.answered i).map Prod.fst⟩

def replies (s : State) (i : ℕ) : Channel ℤ :=
  ⟨(s.answered i).map Prod.snd, pendingResult (s.proc i) (s.child i), s.replied i⟩

end State

section Channels

variable {cfg : Config} {s s' : State} {i k : ℕ} {a : Label} {t t' : Thread}
  {p p' : ProcessInfo} {c : Child}

theorem outstanding_idle (h : p.semJob = 0) (hc : c.pc.busy = 0) : outstanding p c = none := by
  have hr : c.pc.reading = false := by
    cases hpc : c.pc <;> simp_all [ChildPc.busy, ChildPc.reading]
  simp [outstanding, h, hr]

theorem pendingResult_idle (h : p.semResult = 0) (hc : c.pc.busy = 0) :
    pendingResult p c = none := by
  have hr : c.pc.posting = false := by
    cases hpc : c.pc <;> simp_all [ChildPc.busy, ChildPc.posting]
  simp [pendingResult, h, hr]

theorem ThreadMove.asked (h : ThreadMove cfg s k s') (i : ℕ) : s'.asked i = s.asked i ++
    if k = i ∧ ((s.thr k).pc = .postJob ∨ (s.thr k).pc = .stopPostJob) then
      [((s.proc k).cmd, (s.proc k).cmdOffs)] else [] := by
  rw [← events_asked cfg s k i, State.asked, h.log, List.filterMap_append, State.asked]

theorem ThreadMove.replied (h : ThreadMove cfg s k s') (i : ℕ) : s'.replied i = s.replied i ++
    if k = i ∧ ((s.thr k).pc = .waitResult ∨ (s.thr k).pc = .stopWaitResult) then
      [(s.proc k).cmdResult] else [] := by
  rw [← events_replied cfg s k i, State.replied, h.log, List.filterMap_append, State.replied]

theorem ThreadMove.answered (h : ThreadMove cfg s k s') (i : ℕ) : s'.answered i = s.answered i := by
  have he : (s.events cfg k).filterMap (Event.answered i) = [] := by
    have hrec := events_records cfg s k
    generalize s.events cfg k = l at hrec ⊢
    cases hrec <;> simp [finishEvent]
  rw [State.answered, h.log, List.filterMap_append, he, List.append_nil, State.answered]

theorem Pc.jobPhase_idle {pc : Pc} (h : pc.jobPhase = .idle) :
    ¬ (pc = .postJob ∨ pc = .stopPostJob) ∧ ¬ (pc = .waitResult ∨ pc = .stopWaitResult) := by
  refine ⟨?_, ?_⟩ <;> rintro (rfl | rfl) <;> simp [Pc.jobPhase] at h

/-- A thread puts its commands into one channel and takes the results out of the other. -/
theorem ThreadMove.contract (hi : JobInv (s.thr k) (s.proc k) (s.child k))
    (hb : cfg.method k = some .sourceThread → (s.box k).cmd = .job) (h : ThreadMove cfg s k s') :
    (s'.requests k = s.requests k ∨ (s.requests k).Step (s'.requests k)) ∧
      (s'.replies k = s.replies k ∨ (s.replies k).Step (s'.replies k)) := by
  have hask := h.asked k
  have hreply := h.replied k
  have hans := h.answered k
  have htok := hi.tokens
  have hjob := h.job hb fun hpc => hi.cmd (by tauto)
  rcases h.child with hc | ⟨hpc, -, hp, hc⟩
  · generalize hp' : s'.proc k = p' at hjob
    cases hjob with
    | stay hph _ _ _ =>
      obtain ⟨h1, h2⟩ := Pc.jobPhase_idle hph
      rw [if_neg fun hk => h1 hk.2, List.append_nil] at hask
      rw [if_neg fun hk => h2 hk.2, List.append_nil] at hreply
      exact ⟨Or.inl (by simp [State.requests, hask, hans, hp', hc]),
        Or.inl (by simp [State.replies, hreply, hans, hp', hc])⟩
    | setCmd hpc _ | setOffs hpc _ _ | setStop hpc _ =>
      rw [if_neg (by simp [hpc]), List.append_nil] at hask
      rw [if_neg (by simp [hpc]), List.append_nil] at hreply
      simp only [hpc, Pc.jobPhase, JobPhase.waiting] at htok
      have hout := outstanding_idle (p := s.proc k) (c := s.child k) (by omega) (by omega)
      have hout' := outstanding_idle (p := s'.proc k) (c := s.child k) (by simp [hp']; omega)
        (by omega)
      have hres := pendingResult_idle (p := s.proc k) (c := s.child k) (by omega) (by omega)
      have hres' := pendingResult_idle (p := s'.proc k) (c := s.child k) (by simp [hp']; omega)
        (by omega)
      exact ⟨Or.inl (by simp [State.requests, hask, hans, hc, hout, hout']),
        Or.inl (by simp [State.replies, hreply, hans, hc, hres, hres'])⟩
    | postJob hpc _ _ | postStop hpc _ =>
      rw [if_pos (by simp [hpc])] at hask
      rw [if_neg (by simp [hpc]), List.append_nil] at hreply
      simp only [hpc, Pc.jobPhase, JobPhase.waiting] at htok
      have hout := outstanding_idle (p := s.proc k) (c := s.child k) (by omega) (by omega)
      have hput := Channel.Step.put (c := s.requests k) ((s.proc k).cmd, (s.proc k).cmdOffs) hout
      refine ⟨Or.inr ?_, Or.inl ?_⟩
      · simpa [State.requests, hask, hans, hc, hp', outstanding] using hput
      · simp [State.replies, hreply, hans, hc, hp', pendingResult]
    | reply hpc hr _ | replyStop hpc hr _ =>
      rw [if_neg (by simp [hpc]), List.append_nil] at hask
      rw [if_pos (by simp [hpc])] at hreply
      simp only [hpc, Pc.jobPhase, JobPhase.waiting] at htok
      have hres : pendingResult (s.proc k) (s.child k) = some (s.proc k).cmdResult :=
        if_pos (Or.inl hr)
      have hres' := pendingResult_idle (p := s'.proc k) (c := s.child k) (by simp [hp']; omega)
        (by omega)
      have htake := Channel.Step.take (c := s.replies k) (s.proc k).cmdResult hres
      refine ⟨Or.inl ?_, Or.inr ?_⟩
      · simp [State.requests, hask, hans, hc, hp', outstanding]
      · simpa [State.replies, hreply, hans, hc, hres'] using htake
  · simp only [hpc, Pc.jobPhase, JobPhase.waiting] at htok
    rw [if_neg (by simp [hpc]), List.append_nil] at hask
    rw [if_neg (by simp [hpc]), List.append_nil] at hreply
    have hout := outstanding_idle (p := s.proc k) (c := s.child k) (by omega) (by omega)
    have hout' := outstanding_idle (p := s.proc k) (c := s'.child k) (by omega) (by rw [hc]; rfl)
    have hres := pendingResult_idle (p := s.proc k) (c := s.child k) (by omega) (by omega)
    have hres' := pendingResult_idle (p := s.proc k) (c := s'.child k) (by omega) (by rw [hc]; rfl)
    exact ⟨Or.inl (by simp [State.requests, hask, hans, hp, hout, hout']),
      Or.inl (by simp [State.replies, hreply, hans, hp, hres, hres'])⟩

/-- A child answers the command it has read; this takes the command out of one
channel and puts the result into the other. -/
theorem ChildMove.contract (hi : JobInv (s.thr k) (s.proc k) (s.child k))
    (h : ChildMove cfg s k a s') :
    (s'.requests k = s.requests k ∨ (s.requests k).Step (s'.requests k)) ∧
      (s'.replies k = s.replies k ∨ (s.replies k).Step (s'.replies k)) := by
  have htok := hi.tokens
  have hwait : (s.thr k).pc.jobPhase.waiting ≤ 1 := by
    unfold JobPhase.waiting
    split <;> omega
  have hact := hi.action
  cases h with
  | waitJob hpc hr =>
    exact ⟨Or.inl (by simp [State.requests, State.asked, State.answered, outstanding, hr,
        ChildPc.reading]),
      Or.inl (by simp [State.replies, State.answered, State.replied, pendingResult, hpc,
        ChildPc.posting])⟩
  | readJob hpc hc =>
    exact ⟨Or.inl (by simp [State.requests, State.asked, State.answered, outstanding, hpc,
        ChildPc.reading]),
      Or.inl (by simp [State.replies, State.answered, State.replied, pendingResult, hpc,
        ChildPc.posting])⟩
  | write d hpc ha hd =>
    exact ⟨Or.inl (by simp [State.requests, State.asked, State.answered, outstanding]),
      Or.inl (by simp [State.replies, State.answered, State.replied, pendingResult])⟩
  | post exitFlag hpc =>
    exact ⟨Or.inl (by cases exitFlag <;> simp [State.requests, State.asked, State.answered,
        outstanding, hpc, ChildPc.reading]),
      Or.inl (by simp [State.replies, State.answered, State.replied, pendingResult, hpc,
        ChildPc.posting])⟩
  | readStop hpc hc =>
    simp only [hpc, ChildPc.busy] at htok
    have hout : outstanding (s.proc k) (s.child k) = some (.stop, (s.proc k).cmdOffs) := by
      simp [outstanding, hpc, ChildPc.reading, hc]
    have hres : pendingResult (s.proc k) (s.child k) = none := by
      simp only [pendingResult, hpc, ChildPc.posting]
      exact if_neg (by simp; omega)
    have hjob : (s.proc k).semJob = 0 := by omega
    have htake := Channel.Step.take (c := s.requests k) _ hout
    have hput := Channel.Step.put (c := s.replies k) 0 hres
    refine ⟨Or.inr ?_, Or.inr ?_⟩
    · simpa [State.requests, State.asked, State.answered, outstanding, ChildPc.reading, hjob,
        List.filterMap_cons] using htake
    · simpa [State.replies, State.replied, State.answered, pendingResult, ChildPc.posting,
        List.filterMap_cons] using hput
  | noAction hpc _ | ret _ _ hpc _ _ =>
    simp only [hpc, ChildPc.busy] at htok
    have hout : outstanding (s.proc k) (s.child k) = some (.job, (s.proc k).cmdOffs) := by
      simp [outstanding, hpc, ChildPc.reading, hact hpc]
    have hres : pendingResult (s.proc k) (s.child k) = none := by
      simp only [pendingResult, hpc, ChildPc.posting]
      exact if_neg (by simp; omega)
    have hjob : (s.proc k).semJob = 0 := by omega
    have htake := Channel.Step.take (c := s.requests k) _ hout
    have hput := fun result => Channel.Step.put (c := s.replies k) result hres
    refine ⟨Or.inr ?_, Or.inr ?_⟩
    · simpa [State.requests, State.asked, State.answered, outstanding, ChildPc.reading, hjob,
        List.filterMap_cons] using htake
    · simpa [State.replies, State.replied, State.answered, pendingResult, ChildPc.posting,
        List.filterMap_cons] using hput _

theorem ThreadMove.contract_of_ne (h : ThreadMove cfg s k s') (hi : i ≠ k) :
    s'.requests i = s.requests i ∧ s'.replies i = s.replies i := by
  have hask := h.asked i
  have hreply := h.replied i
  rw [if_neg fun hc => hi hc.1.symm, List.append_nil] at hask hreply
  simp [State.requests, State.replies, hask, hreply, h.answered, h.proc_of_ne hi,
    h.child_of_ne hi]

theorem ChildMove.contract_of_ne (h : ChildMove cfg s k a s') (hi : i ≠ k) :
    s'.requests i = s.requests i ∧ s'.replies i = s.replies i := by
  have hproc := h.proc_of_ne hi
  have hchild := h.child_of_ne hi
  rcases h.log with hl | ⟨cmd, offs, result, hl⟩
  all_goals
    simp only [State.requests, State.replies, State.asked, State.answered, State.replied]
    simp [hl, hproc, hchild, Ne.symm hi, List.filterMap_cons]

theorem contract_good (ch : Chain cfg) {ok : State → Label → Prop} (h : (sys cfg).Reach ok s)
    (i : ℕ) : (s.requests i).Good ∧ (s.replies i).Good := by
  refine h.invariant (fun s => (s.requests i).Good ∧ (s.replies i).Good) ?_
    fun s a s' hr hg _ hstep => ?_
  · rintro s rfl
    exact ⟨rfl, rfl⟩
  · have hi := reach_inv ch hr
    have hmove : (s'.requests i = s.requests i ∨ (s.requests i).Step (s'.requests i)) ∧
        (s'.replies i = s.replies i ∨ (s.replies i).Step (s'.replies i)) := by
      cases step_move ch hstep with
      | @thread k _ hk h =>
        by_cases hik : i = k
        · subst hik
          exact h.contract (hi.job i) fun hm => hi.head i hm h.ne_uninit
        · exact (h.contract_of_ne hik).imp Or.inl Or.inl
      | @child k _ _ h =>
        by_cases hik : i = k
        · subst hik
          exact h.contract (hi.job i)
        · exact (h.contract_of_ne hik).imp Or.inl Or.inl
      | main h =>
        simp [State.requests, State.replies, State.asked, State.answered, State.replied, h.log,
          h.proc, h.child]
      | destroy h => cases h <;> exact ⟨Or.inl rfl, Or.inl rfl⟩
      | raise => exact ⟨Or.inl rfl, Or.inl rfl⟩
    refine ⟨?_, ?_⟩
    · exact hmove.1.elim (fun he => he ▸ hg.1) fun hs => hs.good hg.1
    · exact hmove.2.elim (fun he => he ▸ hg.2) fun hs => hs.good hg.2

end Channels

/-! ### When a child is there to answer -/

/-- No action stores -1. -/
def noMinusOne (_ : State) (a : Label) : Prop := ∀ i, a ≠ .ret i (-1)

/-- The action of a child returns -1. -/
def Label.minusOne : Label → Bool
  | .ret _ status => status == -1
  | _ => false

theorem noMinusOne_iff (s : State) (a : Label) : a.minusOne = false ↔ noMinusOne s a := by
  cases a <;> simp [noMinusOne, Label.minusOne]

instance (s : State) (a : Label) : Decidable (noMinusOne s a) :=
  decidable_of_iff _ (noMinusOne_iff s a)

/-- A child leaves its loop for the stop command only. -/
structure ExitInv (t : Thread) (p : ProcessInfo) (c : Child) : Prop where
  leaving : c.pc = .post true → p.cmd = .stop
  gone : c.pc = .gone → t.pc = .stopWaitResult ∧ p.semResult = 1 ∨ t.pc = .setInit ∨ t.pc = .done

section Exit

variable {cfg : Config} {s s' : State} {i k : ℕ} {a : Label}

theorem ThreadMove.after_stop (h : ThreadMove cfg s k s')
    (hpc : (s.thr k).pc = .stopWaitResult ∨ (s.thr k).pc = .setInit ∨ (s.thr k).pc = .done) :
    (s'.thr k).pc = .setInit ∨ (s'.thr k).pc = .done := by
  cases h
  case stopWaitResult pc hs _ =>
    simp only [State.goto, State.setProc, State.emit, Function.update_self, hs]
    split <;> simp
  case setInit => simp
  all_goals simp_all

theorem ThreadMove.exit (hi : JobInv (s.thr k) (s.proc k) (s.child k))
    (hb : cfg.method k = some .sourceThread → (s.box k).cmd = .job)
    (he : ExitInv (s.thr k) (s.proc k) (s.child k)) (h : ThreadMove cfg s k s') :
    ExitInv (s'.thr k) (s'.proc k) (s'.child k) := by
  have htok := hi.tokens
  have hwait : (s.thr k).pc.jobPhase.waiting ≤ 1 := by
    unfold JobPhase.waiting
    split <;> omega
  rcases h.child with hc | ⟨hpc, -, hp, hc⟩
  · refine ⟨fun hpost => ?_, fun hgone => Or.inr ?_⟩
    · -- while the child posts its result the thread waits for it
      exfalso
      rw [hc] at hpost
      have hjob := h.job hb fun hpc => hi.cmd (by tauto)
      simp only [hpost, ChildPc.busy] at htok
      generalize s'.proc k = p' at hjob
      cases hjob with
      | stay hph => simp only [hph, JobPhase.waiting] at htok; omega
      | reply hpc hr | replyStop hpc hr => omega
      | setCmd hpc | setOffs hpc | postJob hpc | setStop hpc | postStop hpc =>
        simp only [hpc, Pc.jobPhase, JobPhase.waiting] at htok
        omega
    · rw [hc] at hgone
      exact h.after_stop ((he.gone hgone).imp And.left id)
  · exact ⟨by simp [hc], by simp [hc]⟩

theorem ChildMove.exit (hi : JobInv (s.thr k) (s.proc k) (s.child k))
    (he : ExitInv (s.thr k) (s.proc k) (s.child k)) (hok : noMinusOne s a)
    (h : ChildMove cfg s k a s') : ExitInv (s'.thr k) (s'.proc k) (s'.child k) := by
  have htok := hi.tokens
  have hthr := h.thr
  have hstop : (s.proc k).cmd = .stop → (s.thr k).pc.jobPhase.waiting = 1 →
      (s.thr k).pc = .stopWaitResult := fun hcmd hw => by
    have hj := hi.cmd_job
    cases hpc : (s.thr k).pc <;> simp_all [Pc.jobPhase, JobPhase.waiting]
  have hwait : (s.thr k).pc.jobPhase.waiting ≤ 1 := by
    unfold JobPhase.waiting
    split <;> omega
  rw [hthr]
  cases h with
  | waitJob hpc hr | readJob hpc hc | write d hpc ha hd =>
    exact ⟨by simp [*], by simp [*]⟩
  | readStop hpc hc => exact ⟨by simp [hc], by simp⟩
  | noAction hpc ha => exact ⟨by simp, by simp⟩
  | ret status result hpc ha hres =>
    have hne : status ≠ -1 := fun hs => hok k (by rw [hs])
    exact ⟨by simp [hne], by simp⟩
  | post exitFlag hpc =>
    refine ⟨by cases exitFlag <;> simp, fun hgone => Or.inl ?_⟩
    have hexit : exitFlag = true := by
      by_contra hf
      simp [hf] at hgone
    subst hexit
    simp only [hpc, ChildPc.busy] at htok
    exact ⟨hstop (he.leaving hpc) (by omega), by simp; omega⟩

theorem exitInv (ch : Chain cfg) (h : (sys cfg).Reach noMinusOne s) (i : ℕ) :
    ExitInv (s.thr i) (s.proc i) (s.child i) := by
  refine h.invariant (fun s => ExitInv (s.thr i) (s.proc i) (s.child i)) ?_
    fun s a s' hr he hok hstep => ?_
  · rintro s rfl
    exact ⟨by simp [initial], by simp [initial]⟩
  · have hi := reach_inv ch hr
    cases step_move ch hstep with
    | @thread k _ hk h =>
      by_cases hik : i = k
      · subst hik
        exact h.exit (hi.job i) (fun hm => hi.head i hm h.ne_uninit) he
      · rw [h.thr_of_ne hik, h.proc_of_ne hik, h.child_of_ne hik]
        exact he
    | @child k _ _ h =>
      by_cases hik : i = k
      · subst hik
        exact h.exit (hi.job i) he hok
      · rw [h.thr, h.proc_of_ne hik, h.child_of_ne hik]
        exact he
    | main h =>
      rw [h.proc, h.child]
      rcases h.create_or with ⟨k, hm, hk, rfl⟩ | ⟨hthr, hbox⟩
      · by_cases hik : i = k
        · subst hik
          refine ⟨he.leaving, fun hg => ?_⟩
          have hu := (startInv hr).fresh hm
          have := he.gone hg
          simp [hu] at this
        · simpa [createModule, hik] using he
      · rw [hthr]
        exact he
    | destroy h => cases h <;> exact he
    | raise => exact he

end Exit

/-! ### The contract -/

section Contract

variable {cfg : Config} {s s' : State} {i k : ℕ} {a : Label}

/-- The thread waits on `sem_result`. -/
def Pc.waitsResult (pc : Pc) : Prop := pc = .waitResult ∨ pc = .stopWaitResult

/-- A step of the child of module `i`; its action returns 0. -/
def childStep (i : ℕ) (_ : State) (a : Label) : Prop := a = .child i ∨ a = .ret i 0

/-- The child alone brings the result that module `i` waits for. -/
def Answers (cfg : Config) (i : ℕ) (s : State) : Prop :=
  ∃ t, (sys cfg).Steps (childStep i) s t ∧ 0 < (t.proc i).semResult ∧ t.thr = s.thr

theorem Answers.step (hok : childStep i s a) (hs : step cfg s a = some s')
    (hthr : s'.thr = s.thr) (h : Answers cfg i s') : Answers cfg i s := by
  obtain ⟨t, ht, hr, ht'⟩ := h
  exact ⟨t, .head ⟨a, hok, hs⟩ ht, hr, ht'.trans hthr⟩

theorem answers_post {e : Bool} (hc : (s.child i).pc = .post e) : Answers cfg i s := by
  have hs : step cfg s (.child i) = some ((s.setChild i { s.child i with
      pc := if e then .gone else .waitJob }).setProc i
        { s.proc i with semResult := (s.proc i).semResult + 1 }) := by
    simp only [step, pipelineProcess, hc]
  exact ⟨_, .single ⟨_, Or.inl rfl, hs⟩, by simp, rfl⟩

theorem answers_action (hc : (s.child i).pc = .action) : Answers cfg i s := by
  cases ha : cfg.action i with
  | false =>
    have hs : step cfg s (.child i) = some (((s.setChild i { s.child i with
        pc := .post false }).setProc i { s.proc i with cmdResult := 0 }).emit
          (.answer i .job (s.proc i).cmdOffs 0)) := by
      simp [step, pipelineProcess, hc, ha]
    exact Answers.step (Or.inl rfl) hs rfl (answers_post (e := false) (by simp))
  | true =>
    have hs : step cfg s (.ret i 0) = some (((s.setChild i { s.child i with
        pc := .post false, status := 0 }).setProc i { s.proc i with cmdResult := 0 }).emit
          (.answer i .job (s.proc i).cmdOffs 0)) := by
      simp [step, actionReturn, hc, ha]
    exact Answers.step (Or.inr rfl) hs rfl (answers_post (e := false) (by simp))

theorem answers_readCmd (hc : (s.child i).pc = .readCmd) : Answers cfg i s := by
  cases hcmd : (s.proc i).cmd with
  | stop =>
    have hs : step cfg s (.child i) = some (((s.setChild i { s.child i with
        pc := .post true }).setProc i { s.proc i with cmdResult := 0 }).emit
          (.answer i .stop (s.proc i).cmdOffs 0)) := by
      simp only [step, pipelineProcess, hc, hcmd]
    exact Answers.step (Or.inl rfl) hs rfl (answers_post (e := true) (by simp))
  | job =>
    have hs : step cfg s (.child i) = some (s.setChild i { s.child i with
        pc := .action, wrote := false }) := by
      simp only [step, pipelineProcess, hc, hcmd]
    exact Answers.step (Or.inl rfl) hs rfl (answers_action (by simp))

theorem answers_waitJob (hc : (s.child i).pc = .waitJob) (hj : 0 < (s.proc i).semJob) :
    Answers cfg i s := by
  have hs : step cfg s (.child i) = some ((s.setChild i { s.child i with
      pc := .readCmd }).setProc i { s.proc i with semJob := (s.proc i).semJob - 1 }) := by
    simp only [step, pipelineProcess, hc, if_pos hj]
  exact Answers.step (Or.inl rfl) hs rfl (answers_readCmd (by simp))

/-- The promises between the modules and their children in a state. -/
structure JobContract (cfg : Config) (s : State) : Prop where
  /-- nobody waits for a child that has left without an answer -/
  attended : ∀ i, (s.thr i).pc.waitsResult → (s.child i).pc = .gone → 0 < (s.proc i).semResult
  /-- the child brings the answer -/
  answerable : ∀ i, (s.thr i).pc.waitsResult → Answers cfg i s
  /-- the answers go to the commands in order, one each -/
  answered : ∀ i, (s.answered i).map Prod.fst <+: s.asked i ∧
    (s.asked i).length ≤ (s.answered i).length + 1
  /-- the module gets the result of each answer, in order -/
  replied : ∀ i, s.replied i <+: (s.answered i).map Prod.snd ∧
    (s.answered i).length ≤ (s.replied i).length + 1
  /-- nothing is under way for a module that does not wait -/
  settled : ∀ i, ¬ (s.thr i).pc.waitsResult → (s.answered i).map Prod.fst = s.asked i ∧
    s.replied i = (s.answered i).map Prod.snd

theorem Pc.waiting_eq {pc : Pc} : pc.waitsResult ↔ pc.jobPhase.waiting = 1 := by
  cases pc <;> simp [Pc.waitsResult, Pc.jobPhase, JobPhase.waiting]

theorem Pc.waiting_zero {pc : Pc} (h : ¬ pc.waitsResult) : pc.jobPhase.waiting = 0 := by
  cases pc <;> simp_all [Pc.waitsResult, Pc.jobPhase, JobPhase.waiting]

/-- In a run in which no action stores -1 every wait for a result is answered. -/
theorem attended (ch : Chain cfg) (h : (sys cfg).Reach noMinusOne s)
    (hw : (s.thr i).pc.waitsResult) (hg : (s.child i).pc = .gone) :
    0 < (s.proc i).semResult := by
  rcases (exitInv ch h i).gone hg with ⟨-, hr⟩ | hpc | hpc
  · omega
  · simp [hpc, Pc.waitsResult] at hw
  · simp [hpc, Pc.waitsResult] at hw

theorem answerable (ch : Chain cfg) (h : (sys cfg).Reach noMinusOne s)
    (hw : (s.thr i).pc.waitsResult) : Answers cfg i s := by
  have hinv := reach_inv ch h
  have htok := (hinv.job i).tokens
  rw [Pc.waiting_eq.mp hw] at htok
  by_cases hr : 0 < (s.proc i).semResult
  · exact ⟨s, .refl, hr, rfl⟩
  cases hc : (s.child i).pc with
  | absent =>
    have hm : cfg.method i ≠ some .finalizationThread := fun hm => by
      have hruns := hinv.runs i _ hm
      rcases hw with hpc | hpc <;> simp [hpc, ThreadMethod.runs] at hruns
    exact absurd hc (hinv.forked i hm (by rcases hw with hpc | hpc <;> simp [hpc, Pc.starting]))
  | waitJob =>
    simp only [hc, ChildPc.busy] at htok
    exact answers_waitJob hc (by omega)
  | readCmd => exact answers_readCmd hc
  | action => exact answers_action hc
  | post e => exact answers_post hc
  | gone => exact absurd (attended ch h hw hc) hr

theorem settled (ch : Chain cfg) {ok : State → Label → Prop} (h : (sys cfg).Reach ok s)
    (hw : ¬ (s.thr i).pc.waitsResult) : (s.answered i).map Prod.fst = s.asked i ∧
      s.replied i = (s.answered i).map Prod.snd := by
  have htok := ((reach_inv ch h).job i).tokens
  rw [Pc.waiting_zero hw] at htok
  obtain ⟨hreq, hrep⟩ := contract_good ch h i
  exact ⟨hreq.received_eq (outstanding_idle (by omega) (by omega)),
    hrep.received_eq (pendingResult_idle (by omega) (by omega))⟩

theorem job_contract (ch : Chain cfg) (h : (sys cfg).Reach noMinusOne s) : JobContract cfg s where
  attended _ hw hg := attended ch h hw hg
  answerable _ hw := answerable ch h hw
  answered i := by
    obtain ⟨hreq, -⟩ := contract_good ch h i
    exact ⟨hreq.received_isPrefix, by simpa [State.requests] using hreq.length_le⟩
  replied i := by
    obtain ⟨-, hrep⟩ := contract_good ch h i
    exact ⟨hrep.received_isPrefix, by simpa [State.replies] using hrep.length_le⟩
  settled _ hw := settled ch h hw

/-- The child of the head has the second job and stored 7 for the first one. -/
theorem job_contract_second :
    ∃ s, (sys (threeModules some fun _ => true)).Reach noMinusOne s ∧
      (s.thr 0).pc = .waitResult ∧ s.replied 0 = [7] ∧ s.asked 0 = [(.job, 512), (.job, 516)] ∧
      JobContract (threeModules some fun _ => true) s := by
  have hreach := Lts.reach_exec (sys (threeModules some fun _ => true)) noMinusOne
    (List.flatten [startLabels 3, List.replicate 8 (.thread 0),
      [.child 0, .child 0, .ret 0 7, .child 0], List.replicate 13 (.thread 0)])
    rfl (by decide) fun _ a ha i he => by
      subst he
      revert ha
      simp [startLabels]
  refine ⟨_, hreach, ?_, ?_, ?_, job_contract (threeModules.chain some fun _ => true) hreach⟩
  all_goals decide

/-- The action of the head's first job stores -1: the child answers it and
leaves, and the head waits for an answer to its second job. -/
theorem job_contract_minus_one :
    ¬ ∀ cfg : Config, Chain cfg → ∀ s, (sys cfg).Reach Lts.anyStep s → JobContract cfg s := by
  intro hall
  have hreach := Lts.reach_exec (sys (threeModules some fun _ => true)) Lts.anyStep
    (List.flatten [startLabels 3, List.replicate 8 (.thread 0),
      [.child 0, .child 0, .ret 0 (-1), .child 0], List.replicate 13 (.thread 0)])
    rfl (by decide) fun _ _ _ => trivial
  have hc := hall _ (threeModules.chain some fun _ => true) _ hreach
  have hwait := hc.attended 0 (Or.inl (by decide)) (by decide)
  revert hwait
  decide

end Contract

end TmkDcl.Pipeline
