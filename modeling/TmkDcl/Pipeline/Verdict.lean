import TmkDcl.Pipeline.NoStop

/-!
# The verdict on the start

After its start loop `pipeline_thread` decides whether the pipeline goes to
`MD_STATE_LIVE`. It does not ask whether all modules have been started but
whether at least two have (`pipeline_server.c:74-79`), so the `MD_STATE_ERROR`
that the loop sets on a failure is overwritten when the third module or a later
one fails. A module without a child does not report its failure at all: it stays
in its loop, and `pipeline_thread` in the join of its thread.
-/

namespace TmkDcl.Pipeline

/-- `pipeline_thread` has decided on the state of the pipeline. -/
def MainPc.decided : MainPc → Bool
  | .checkLive | .setLive _ | .join _ | .finish | .returned => true
  | _ => false

/-- The state of a pipeline of which two modules have been started. -/
def MainPc.verdict : MainPc → MdState
  | .checkLive | .setLive _ => .init
  | _ => .live

/-- The pipeline or a module of it is live. -/
def State.isLive (s : State) : Prop := s.plState = .live ∨ ∃ i, s.st i = .live

structure VerdictInv (s : State) : Prop where
  verdict : s.main.decided = true → s.destroyer ≠ .returned →
    s.plState = if 2 ≤ s.realStarted then s.main.verdict else .error
  setLive : ∀ k, s.main = .setLive k → 2 ≤ s.realStarted
  live : s.isLive → s.main.decided = true ∧ 2 ≤ s.realStarted
  destroyer : s.destroyer = .cleanup ∨ s.destroyer = .returned → s.main = .returned

section Steps

variable {cfg : Config} {s s' : State} {f i k : ℕ} {a : Label} {ok : State → Label → Prop}

theorem setState_ne_live {old new : MdState} (hn : new ≠ .live) :
    pipelineModuleSetState new old ≠ .live := by
  unfold pipelineModuleSetState
  split
  · simp
  · exact hn

/-- A step that makes no module live keeps the states below `live`. -/
theorem isLive_of_st (h : s'.isLive) (hp : s'.plState = .live → s.isLive)
    (hst : ∀ i, s'.st i = .live → s.st i = .live) : s.isLive := by
  rcases h with h | ⟨i, h⟩
  · exact hp h
  · exact Or.inr ⟨i, hst i h⟩

theorem st_update {st : ℕ → MdState} {m : MdState} (hm : m ≠ .live)
    (h : Function.update st k m i = .live) : st i = .live := by
  by_cases hi : i = k
  · subst hi
    rw [Function.update_self] at h
    exact absurd h hm
  · rwa [Function.update_of_ne hi] at h

theorem VerdictInv.initial : VerdictInv (initial cfg) := by
  refine ⟨by simp [TmkDcl.Pipeline.initial, MainPc.decided], by simp [TmkDcl.Pipeline.initial],
    ?_, by simp [TmkDcl.Pipeline.initial]⟩
  rintro (h | ⟨i, h⟩) <;> cases h

theorem VerdictInv.thread (hv : VerdictInv s) (hf : ThreadFrame s s') (hm : s'.main = s.main)
    (hr : s'.realStarted = s.realStarted) : VerdictInv s' := by
  obtain ⟨hverd, hset, hlive, hdes⟩ := hv
  refine ⟨?_, ?_, fun h => ?_, ?_⟩
  · rwa [hm, hr, hf.plState, hf.destroyer]
  · rwa [hm, hr]
  · rw [hm, hr]
    refine hlive (isLive_of_st h (fun hp => Or.inl (hf.plState.symm.trans hp)) fun i hi => ?_)
    rcases hf.st i with he | he
    · exact he.symm.trans hi
    · exact absurd (he.symm.trans hi) (setState_ne_live (by simp))
  · rwa [hm, hf.destroyer]

theorem VerdictInv.main (hv : VerdictInv s) (h : MainMove cfg s s') : VerdictInv s' := by
  obtain ⟨hverd, hset, hlive, hdes⟩ := hv
  have hret : s.main ≠ .returned → s.destroyer ≠ .returned := fun hm hd => hm (hdes (Or.inr hd))
  have hopen : s.main.decided = false → ¬ s.isLive := fun hd hl => by
    simp [hd] at hlive
    exact hlive hl
  cases h
  case create k hm hk =>
    refine ⟨by simp [MainPc.decided], by simp, fun hl => ?_, fun hd => absurd (hdes hd) (by simp [hm])⟩
    refine (hopen (by simp [hm, MainPc.decided]) (isLive_of_st hl Or.inl fun i hi => ?_)).elim
    exact st_update (by simp) hi
  case started k hm hi =>
    refine ⟨by simp [MainPc.decided], by simp, fun hl => ?_, fun hd => absurd (hdes hd) (by simp [hm])⟩
    refine (hopen (by simp [hm, MainPc.decided]) (isLive_of_st hl Or.inl fun i hi => ?_)).elim
    exact st_update (setState_ne_live (by simp)) hi
  case joinFailed k hm hr =>
    refine ⟨by simp [MainPc.decided], by simp, fun hl => ?_, fun hd => absurd (hdes hd) (by simp [hm])⟩
    refine (hopen (by simp [hm, MainPc.decided]) (isLive_of_st hl (by simp) fun i hi => ?_)).elim
    exact st_update (setState_ne_live (by simp)) hi
  case decide hm =>
    refine ⟨fun _ _ => rfl, by simp, fun hl => ?_, fun hd => absurd (hdes hd) (by simp [hm])⟩
    refine (hopen (by simp [hm, MainPc.decided])
      (isLive_of_st hl (fun hp => ?_) fun i hi => hi)).elim
    dsimp only at hp
    split at hp <;> cases hp
  case checkLive hm =>
    have hp := hverd (by simp [hm, MainPc.decided]) (hret (by simp [hm]))
    rw [hm] at hp
    refine ⟨fun _ _ => ?_, fun k hk => ?_, fun hl => ⟨?_, (hlive hl).2⟩,
      fun hd => absurd (hdes hd) (by simp [hm])⟩
    · by_cases hr : 2 ≤ s.realStarted <;> simp_all [MainPc.verdict]
    · by_contra hr
      rw [if_neg hr] at hp
      simp [hp] at hk
    · dsimp only
      split <;> rfl
  case setLive k hm hk =>
    have hp := hverd (by simp [hm, MainPc.decided]) (hret (by simp [hm]))
    exact ⟨fun _ _ => by simpa [hm, MainPc.verdict] using hp, fun _ _ => hset k hm,
      fun _ => ⟨rfl, hset k hm⟩, fun hd => absurd (hdes hd) (by simp [hm])⟩
  case live k hm hk =>
    exact ⟨fun _ _ => by simp [hset k hm, MainPc.verdict], by simp, fun _ => ⟨rfl, hset k hm⟩,
      fun hd => absurd (hdes hd) (by simp [hm])⟩
  case join k hm hk hr =>
    have hp := hverd (by simp [hm, MainPc.decided]) (hret (by simp [hm]))
    refine ⟨fun _ _ => by simpa [hm, MainPc.verdict] using hp, by simp, fun hl => ⟨rfl, ?_⟩,
      fun hd => absurd (hdes hd) (by simp [hm])⟩
    exact (hlive (isLive_of_st hl Or.inl fun i hi => st_update (by simp) hi)).2
  case allJoined k hm hk =>
    have hp := hverd (by simp [hm, MainPc.decided]) (hret (by simp [hm]))
    exact ⟨fun _ _ => by simpa [hm, MainPc.verdict] using hp, by simp,
      fun hl => ⟨rfl, (hlive hl).2⟩, fun hd => absurd (hdes hd) (by simp [hm])⟩
  case finish hm =>
    have hp := hverd (by simp [hm, MainPc.decided]) (hret (by simp [hm]))
    exact ⟨fun _ _ => by simpa [hm, MainPc.verdict] using hp, by simp,
      fun hl => ⟨rfl, (hlive hl).2⟩, fun _ => rfl⟩
  case allStarted k hm hk | waitStart k hm hc | failed k hm hi =>
    exact ⟨by simp [MainPc.decided], by simp,
      fun hl => (hopen (by simp [hm, MainPc.decided]) hl).elim,
      fun hd => absurd (hdes hd) (by simp [hm])⟩

theorem VerdictInv.destroy (hv : VerdictInv s) (h : DestroyMove s s') : VerdictInv s' := by
  obtain ⟨hverd, hset, hlive, hdes⟩ := hv
  cases h with
  | call hd => exact ⟨fun h _ => hverd h (by simp [hd]), hset, hlive, by simp⟩
  | join hd hm => exact ⟨fun h _ => hverd h (by simp [hd]), hset, hlive, fun _ => hm⟩
  | cleanup hd =>
    refine ⟨fun _ hr => absurd rfl hr, hset, fun hl => hlive ?_, fun _ => hdes (Or.inl hd)⟩
    exact isLive_of_st hl (by simp) fun i hi => absurd hi (setState_ne_live (by simp))

theorem verdictInv (h : (sys cfg).Reach ok s) : VerdictInv s := by
  refine h.invariant VerdictInv ?_ fun s a s' hr hv _ hs => ?_
  · rintro s rfl
    exact .initial
  · have hchild : ∀ {k}, ChildMove cfg s k a s' → VerdictInv s' := fun hm => by
      obtain ⟨hverd, hset, hlive, hdes⟩ := hv
      cases hm <;> exact ⟨hverd, hset, hlive, hdes⟩
    cases a with
    | thread k =>
      obtain ⟨hm, hr, -⟩ := (threadStep_start hs).frame
      exact hv.thread (threadStep_frame hs) hm hr
    | child k => exact hchild (pipelineProcess_move hs)
    | write k d => exact hchild (actionWrite_move hs)
    | ret k status => exact hchild (actionReturn_move hs)
    | main => exact hv.main (pipelineThread_move hs)
    | destroy => exact hv.destroy (pipelineDestroy_move hs)
    | raise =>
      cases hs
      exact ⟨hv.verdict, hv.setLive, hv.live, hv.destroyer⟩

end Steps

/-! ### The verdict is reached -/

section Progress

variable {cfg : Config} {s s' t : State} {f i k : ℕ}

/-- `process_start` of some module has failed. -/
def FailedStart (cfg : Config) (s : State) : Prop :=
  ∃ i, (s.thr i).pc ≠ .uninit ∧ (s.thr i).pc ≠ .start ∧ cfg.processStart i = none

/-- The module `f` has failed to start, and `pipeline_thread` has just decided at the latest. -/
structure Pending (cfg : Config) (f : ℕ) (s : State) : Prop where
  reach : (sys cfg).Reach noRaise s
  pc : (s.thr f).pc = .failFlag ∨ (s.thr f).pc = .failPost ∨ (s.thr f).pc = .failed
  main : s.main.decided = false ∨ s.main = .checkLive

/-- How far `pipeline_thread` is from its verdict. -/
def MainPc.rank : MainPc → ℕ
  | .waitStart _ => 4
  | .checkIdx _ => 3
  | .joinFailed _ => 2
  | .decide => 1
  | _ => 0

/-- How far a failing thread is from its return. -/
def Pc.failRank : Pc → ℕ
  | .failFlag => 2
  | .failPost => 1
  | _ => 0

/-- `pipeline_thread` does not wait once the failed thread has returned. -/
theorem pipelineThread_failed (hst : StartInv cfg s.startView) (hf : cfg.processStart f = none)
    (hreal : s.realStarted = f) (hpc : (s.thr f).pc = .failed) (hd : s.main.decided = false) :
    ∃ t, pipelineThread cfg s = some t ∧ t.thr = s.thr ∧ t.main.rank < s.main.rank ∧
      (t.main.decided = false ∨ t.main = .checkLive) := by
  cases hm : s.main with
  | startNext k =>
    obtain rfl : f = k := hreal.symm.trans (hst.count k (by simp [hm, MainPc.starting]))
    simp [hst.fresh hm] at hpc
  | waitStart k =>
    obtain rfl : f = k := hreal.symm.trans (hst.count k (by simp [hm, MainPc.starting]))
    have hposted : (s.startView.pc f).posted = true := by
      simp only [State.startView, hpc]
      rfl
    have hc : 0 < s.startControl := by
      have hctl := hst.control f hm
      rw [if_pos hposted] at hctl
      simp only [State.startView] at hctl
      omega
    simp [pipelineThread, hm, hc, MainPc.rank, MainPc.decided]
  | checkIdx k =>
    obtain rfl : f = k := hreal.symm.trans (hst.count k (by simp [hm, MainPc.starting]))
    have hidx : s.idx f = -1 := by
      have hc := (hst.checked (by simp [hreal, hm])).2.2
      simp only [State.startView, hreal] at hc
      rw [hc]
      exact Config.startIdx_eq.mpr hf
    simp [pipelineThread, hm, hidx, MainPc.rank, MainPc.decided]
  | joinFailed k =>
    obtain rfl : f = k := hreal.symm.trans (hst.count k (by simp [hm, MainPc.starting]))
    have hret : (s.thr f).pc.returned := Or.inr hpc
    simp [pipelineThread, hm, hret, MainPc.rank, MainPc.decided]
  | decide => simp [pipelineThread, hm, MainPc.rank, MainPc.decided]
  | checkLive | setLive _ | join _ | finish | returned => simp [hm, MainPc.decided] at hd

theorem threadStep_failing (hext : cfg.external f)
    (hpc : (s.thr f).pc = .failFlag ∨ (s.thr f).pc = .failPost) :
    ∃ t, threadStep cfg s f = some t ∧ t.main = s.main ∧
      ((t.thr f).pc = .failPost ∨ (t.thr f).pc = .failed) ∧
      (t.thr f).pc.failRank < (s.thr f).pc.failRank := by
  rcases hext with hm | hm <;> rcases hpc with hpc | hpc <;>
    simp [threadStep, hm, sourceThread, processThread, hpc, raiseExit, postStart, Pc.failRank]

theorem Pending.next (hp : Pending cfg f s) (hd : s.main.decided = false) :
    ∃ t, (sys cfg).Next noRaise s t ∧ Pending cfg f t ∧
      t.main.rank + (t.thr f).pc.failRank < s.main.rank + (s.thr f).pc.failRank := by
  have hst := startInv hp.reach
  obtain ⟨hnone, hext⟩ := (hst.modules f).failing hp.pc
  have hreal := (hst.fails (i := f) (by rcases hp.pc with h | h | h <;> simp [h])
    (by rcases hp.pc with h | h | h <;> simp [h]) hnone).2
  rcases or_assoc.mpr hp.pc with hpc | hpc
  · obtain ⟨t, ht, hm, hpct, hlt⟩ := threadStep_failing hext hpc
    refine ⟨t, ⟨.thread f, by simp [noRaise], ht⟩, ⟨?_, Or.inr hpct, hm ▸ hp.main⟩, by rw [hm]; omega⟩
    exact .step hp.reach (a := .thread f) (by simp [noRaise]) ht
  · obtain ⟨t, ht, hthr, hlt, hm⟩ := pipelineThread_failed hst hnone hreal hpc hd
    refine ⟨t, ⟨.main, by simp [noRaise], ht⟩, ⟨?_, hthr ▸ hp.pc, hm⟩, by rw [hthr]; omega⟩
    exact .step hp.reach (a := .main) (by simp [noRaise]) ht

/-- The verdict on a failed start of a module with a child can be reached. -/
theorem Pending.decides (hp : Pending cfg f s) :
    ∃ t, (sys cfg).Steps noRaise s t ∧ Pending cfg f t ∧ t.main = .checkLive := by
  refine Lts.exists_steps_of_measure (Pending cfg f) (fun t => Pending cfg f t ∧ t.main = .checkLive)
    (fun t => t.main.rank + (t.thr f).pc.failRank) (fun t ht hd => ?_) hp
  obtain ⟨u, hu, hpu, hlt⟩ := ht.next (ht.main.resolve_right fun hm => hd ⟨ht, hm⟩)
  exact ⟨u, .single hu, hpu, hlt⟩

theorem Pending.failedStart (hp : Pending cfg f s) : FailedStart cfg s := by
  have hnone := ((startInv hp.reach).modules f).failing hp.pc
  exact ⟨f, by rcases hp.pc with h | h | h <;> simp [h],
    by rcases hp.pc with h | h | h <;> simp [h], hnone.1⟩

end Progress

/-! ### Live when complete -/

section Live

variable {cfg : Config} {s t : State} {f i k : ℕ}

/-- A pipeline is live only when all its modules have been started, and it ends
in `MD_STATE_ERROR` when one has failed to. -/
structure LiveWhenComplete (cfg : Config) (s : State) : Prop where
  live : s.isLive → ∀ i, i < cfg.modulesCnt →
    cfg.processStart i ≠ none ∧ (s.thr i).pc.running = true
  error : FailedStart cfg s → s.main.decided = true → s.destroyer ≠ .returned →
    s.plState = .error
  decides : FailedStart cfg s → s.main.decided = false →
    ∃ t, (sys cfg).Steps noRaise s t ∧ t.main = .checkLive ∧ t.plState = .error

theorem starting_of_decided {m : MainPc} (h : m.decided = true) : m.starting = none := by
  cases m <;> simp_all [MainPc.decided, MainPc.starting]

/-- The condition under which the verdict is right: a failure is that of a module
with a child, and one of the first two in the list. -/
def Config.FailsEarly (cfg : Config) : Prop := ∀ f, cfg.Fails f → f < 2 ∧ cfg.external f

theorem verdict_error (h : (sys cfg).Reach noRaise s) (hf : FailedStart cfg s)
    (he : cfg.FailsEarly) (hd : s.main.decided = true) (hr : s.destroyer ≠ .returned) :
    s.plState = .error := by
  obtain ⟨i, hu, hs, hn⟩ := hf
  obtain ⟨hfi, hreal⟩ := (startInv h).fails hu hs hn
  have hlt := (he i hfi).1
  simp only [State.startView] at hreal
  rw [(verdictInv h).verdict hd hr, if_neg (by omega)]

theorem live_complete (h : (sys cfg).Reach noRaise s) (he : cfg.FailsEarly) (hl : s.isLive)
    (hi : i < cfg.modulesCnt) : cfg.processStart i ≠ none ∧ (s.thr i).pc.running = true := by
  have hst := startInv h
  obtain ⟨hd, h2⟩ := (verdictInv h).live hl
  rcases hst.over_cases (starting_of_decided hd) with hreal | ⟨hf, -⟩
  · exact ⟨hst.started i (hreal ▸ hi), hst.running (hreal ▸ hi)⟩
  · have := (he _ hf).1
    simp only [State.startView] at this
    omega

theorem failed_pending (h : (sys cfg).Reach noRaise s) (hf : FailedStart cfg s)
    (he : cfg.FailsEarly) (hd : s.main.decided = false) :
    ∃ f, Pending cfg f s := by
  obtain ⟨i, hu, hs, hn⟩ := hf
  have hst := startInv h
  obtain ⟨-, hext⟩ := he i (hst.fails hu hs hn).1
  refine ⟨i, h, ?_, Or.inl hd⟩
  have hno := fun hp => (hst.modules i).starts hp hn hext
  simp only [State.startView] at hno
  cases hpc : (s.thr i).pc <;> simp_all [Pc.running]

/-- The start loop can be broken off by a module without a child, and then there is no verdict. -/
theorem stuck_failure (hf : cfg.Fails f) (hext : ¬ cfg.external f) :
    ∃ s, (sys cfg).Reach noRaise s ∧ FailedStart cfg s ∧ s.main.decided = false ∧
      ∀ t, (sys cfg).Steps noRaise s t → t.main.decided = false := by
  obtain ⟨s, hr, hm, -⟩ := exists_startNext (le_of_lt hf.lt) hf.before
  obtain ⟨m, hmeth⟩ := Option.ne_none_iff_exists'.mp hf.method
  have hm' : m = .finalizationThread ∨ m = .initialThread := by
    cases m <;> simp_all [Config.external]
  have hexec : ∃ t, (sys cfg).exec s [.main, .thread f] = some t ∧ (t.thr f).pc = .startPost ∧
      t.main = .waitStart f := by
    rcases hm' with rfl | rfl <;>
      simp [Lts.exec, sys, step, pipelineThread, hm, hf.lt, createModule, threadStep, hmeth,
        finalizationThread, initialThread, startInternal, hf.none]
  obtain ⟨t, ht, hpc, hmt⟩ := hexec
  have hrt := reach_of_exec hr (by simp) ht
  have hquiet : cfg.FailsQuietly := fun g hg => by rwa [hg.unique hf]
  refine ⟨t, hrt, ⟨f, by simp [hpc], by simp [hpc], hf.none⟩, by rw [hmt]; rfl, fun u hu => ?_⟩
  by_contra hd
  have hru := hrt.steps hu
  have hst := startInv hru
  have hheld := reach_held hquiet (Nat.zero_lt_of_lt hf.lt) hru
  rcases hst.over_cases (starting_of_decided (by simpa using hd)) with hreal | ⟨-, hret⟩
  · exact hst.started f (hreal ▸ hf.lt) hf.none
  · exact (hst.not_failing hquiet).2 (hheld.quiet.returned hret)

/-- The pipeline goes live when its third module or a later one fails to start. -/
theorem live_failure (hf : cfg.Fails f) (hext : cfg.external f) (h2 : 2 ≤ f) :
    ∃ s, (sys cfg).Reach noRaise s ∧ s.plState = .live := by
  obtain ⟨s, hr, hm, -⟩ := exists_startNext (le_of_lt hf.lt) hf.before
  have hreal : s.realStarted = f := (startInv hr).count f (by simp [hm, MainPc.starting])
  have hfail := exec_fail hm hf.lt hext hf.none (StartInv.control_startNext hr hm)
  have hlive : (sys cfg).exec (failedState s f) (liveSteps cfg.modulesCnt) = some _ :=
    exec_live rfl (by simp [failedState]; omega)
  refine ⟨_, reach_of_exec hr ?_ (Lts.exec_append hfail hlive), rfl⟩
  simp [failSteps, liveSteps]

theorem live_only_complete (cfg : Config) :
    (∀ s, (sys cfg).Reach noRaise s → LiveWhenComplete cfg s) ↔ cfg.FailsEarly := by
  refine ⟨fun h f hf => ?_, fun he s h => ⟨fun hl i hi => live_complete h he hl hi,
    fun hf hd hr => verdict_error h hf he hd hr, fun hf hd => ?_⟩⟩
  · have hext : cfg.external f := by
      by_contra hext
      obtain ⟨s, hr, hfs, hd, hno⟩ := stuck_failure hf hext
      obtain ⟨t, ht, hm, -⟩ := (h s hr).decides hfs hd
      have := hno t ht
      simp [hm, MainPc.decided] at this
    refine ⟨?_, hext⟩
    by_contra h2
    obtain ⟨s, hr, hl⟩ := live_failure hf hext (by omega)
    exact ((h s hr).live (Or.inl hl) f hf.lt).1 hf.none
  · obtain ⟨f, hp⟩ := failed_pending h hf he hd
    obtain ⟨t, ht, hpt, hm⟩ := hp.decides
    refine ⟨t, ht, hm, verdict_error hpt.reach hpt.failedStart he (by rw [hm]; rfl) fun hr => ?_⟩
    have hret := (verdictInv hpt.reach).destroyer (Or.inr hr)
    simp [hm] at hret

/-- A source, a module, a module whose `process_start` fails, and the last one. -/
def thirdFails : Config where
  modules := [⟨1, .first, .external, 2⟩, ⟨2, .middle, .external, 3⟩, ⟨3, .middle, .external, 4⟩,
    ⟨4, .last, .internal, -1⟩]
  map := ⟨4, 64, 2, 4⟩
  dataSize_pos := by decide
  dataCnt_lt := two_lt_int
  processStart i := if i = 2 then none else some i
  action _ := true

/-- The third of four modules fails to start, and the pipeline goes live. -/
theorem live_only_complete_third :
    ¬ ∀ cfg : Config, ∀ s, (sys cfg).Reach noRaise s → LiveWhenComplete cfg s := by
  intro hall
  have hreach := Lts.reach_exec (sys thirdFails) noRaise
    (List.flatten [startSteps 0, startSteps 1, failSteps 2, liveSteps 4]) rfl (by decide)
    fun _ a ha he => by
      subst he
      revert ha
      decide
  have hlive := (hall _ _ hreach).live (Or.inl (by decide)) 2 (by decide)
  exact hlive.1 rfl

end Live

end TmkDcl.Pipeline
