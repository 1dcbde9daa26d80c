import TmkDcl.Pipeline.Runs

/-!
# Without the exit flag nobody stops

A module thread leaves its loop for the exit flag (the first modules of a chain)
or for the stop command in its mailbox (the others), and the stop command comes
from a thread that has left its loop. So as long as the flag is not set every
mailbox says `PROCESS_CMD_JOB` and every thread stays in its loop, whatever the
module list. Inside the program the flag is set by a thread whose
`process_start` fails, and by `pipeline_destroy` after its join.
-/

namespace TmkDcl.Pipeline

/-- The statements after the loop of a thread method. -/
def Pc.stopping : Pc → Bool
  | .stopWaitNext | .stopPutCmd | .stopPostNext | .checkNextIdx | .stopSetCmd | .stopPostJob
  | .stopWaitResult | .setInit | .done => true
  | _ => false

/-- Nobody has been told to stop. -/
structure NoStop (s : State) : Prop where
  flag : s.exitFlag = false
  box : ∀ i, (s.thr i).pc ≠ .uninit → (s.box i).cmd = .job
  read : ∀ i, (s.thr i).pc = .readOffset ∨ (s.thr i).pc = .postResult → (s.thr i).cmd = .job
  runs : ∀ i, (s.thr i).pc.stopping = false


/-- What a statement of a thread does while nobody has been told to stop. -/
structure QuietStep (s s' : State) (k : ℕ) : Prop where
  flag : s'.exitFlag = s.exitFlag
  thr : ∀ i, i ≠ k → s'.thr i = s.thr i
  init : (s.thr k).pc ≠ .uninit
  box : ∀ i, (s'.box i).cmd = (s.box i).cmd ∨ (s'.box i).cmd = .job
  read : (s'.thr k).pc = .readOffset ∨ (s'.thr k).pc = .postResult → (s'.thr k).cmd = .job
  runs : (s'.thr k).pc.stopping = false

section Steps

variable {cfg : Config} {s s' : State} {i j k : ℕ} {a : Label}

theorem NoStop.step (h : NoStop s) (hq : QuietStep s s' k) : NoStop s' := by
  refine ⟨hq.flag.trans h.flag, fun i hu => ?_, fun i hr => ?_, fun i => ?_⟩
  · have hu' : (s.thr i).pc ≠ .uninit := by
      by_cases hi : i = k
      · exact hi ▸ hq.init
      · rwa [← hq.thr i hi]
    exact (hq.box i).elim (fun he => he.trans (h.box i hu')) id
  · by_cases hi : i = k
    · exact hi ▸ hq.read (hi ▸ hr)
    · rw [hq.thr i hi] at hr ⊢
      exact h.read i hr
  · by_cases hi : i = k
    · exact hi ▸ hq.runs
    · rw [hq.thr i hi]
      exact h.runs i

theorem cmd_update (f : ℕ → Mailbox) {b : Mailbox} (hb : b.cmd = (f j).cmd ∨ b.cmd = .job) (i : ℕ) :
    (Function.update f j b i).cmd = (f i).cmd ∨ (Function.update f j b i).cmd = .job := by
  by_cases hi : i = j
  · subst hi
    simpa using hb
  · simp [hi]

theorem ThreadMove.quiet (hn : NoStop s) (hpc : (s.thr k).pc ≠ .failFlag)
    (h : ThreadMove cfg s k s') : QuietStep s s' k := by
  have hthr : ∀ i, i ≠ k → s'.thr i = s.thr i := fun i hi => by
    cases h <;> exact Function.update_of_ne hi ..
  have hflag := hn.flag
  have hbox := hn.box k
  have hread := hn.read k
  have hruns := hn.runs k
  have hinit := h.ne_uninit
  cases h
  case failFlag hpc' => exact absurd hpc' hpc
  case postStop hpc' _ hc _ _ => simp [hread (Or.inr hpc')] at hc
  case stopWaitNext hpc' _ _ | stopPutCmd hpc' _ | stopPostNext hpc' _ | stopSetCmd hpc'
    | stopPostJob hpc' | stopWaitResult hpc' _ _ _ | setInit hpc' =>
    simp [hpc', Pc.stopping] at hruns
  case startPost pc hs =>
    refine ⟨rfl, hthr, hinit, fun i => Or.inl rfl, ?_, ?_⟩ <;>
      simp only [State.goto, Function.update_self, hs] <;> split <;> simp [Pc.stopping]
  case postNext pc hs =>
    refine ⟨rfl, hthr, hinit, cmd_update _ (Or.inl rfl), ?_, ?_⟩ <;>
      simp only [State.goto, State.setBox, State.emit, Function.update_self, hs] <;> split <;>
        simp [Pc.stopping]
  case postTaken pc hs =>
    refine ⟨rfl, hthr, hinit, cmd_update _ (Or.inl rfl), ?_, ?_⟩ <;>
      simp only [State.goto, State.setBox, Function.update_self, hs] <;> split <;>
        simp [Pc.stopping]
  case checkExit | checkState | readResult =>
    refine ⟨rfl, hthr, hinit, fun i => Or.inl rfl, ?_, ?_⟩ <;>
      simp only [State.goto, State.emit, Function.update_self, hflag] <;> split <;>
        simp_all [Pc.stopping]
  case waitNext | putOffset | waitCmd =>
    exact ⟨rfl, hthr, hinit, cmd_update _ (Or.inl rfl), by simp, by simp [Pc.stopping]⟩
  case putCmd => exact ⟨rfl, hthr, hinit, cmd_update _ (Or.inr rfl), by simp, by simp [Pc.stopping]⟩
  case readCmd =>
    exact ⟨rfl, hthr, hinit, fun i => Or.inl rfl, by simp [hbox hinit], by simp [Pc.stopping]⟩
  case readOffset hpc' _ _ _ =>
    exact ⟨rfl, hthr, hinit, fun i => Or.inl rfl, by simp [hread (Or.inl hpc')],
      by simp [Pc.stopping]⟩
  all_goals exact ⟨rfl, hthr, hinit, fun i => Or.inl rfl, by simp, by simp [Pc.stopping]⟩

theorem initialThread_quiet (hn : NoStop s) (h : initialThread cfg s k = some s') :
    QuietStep s s' k := by
  have hflag := hn.flag
  have hruns := hn.runs k
  have hframe : ∀ {t : Thread} {i}, i ≠ k → Function.update s.thr k t i = s.thr i := fun hi =>
    Function.update_of_ne hi ..
  unfold initialThread at h
  split at h
  all_goals rename_i hpc
  case h_1 =>
    unfold startInternal at h
    split at h <;> cases h
    all_goals
      exact ⟨rfl, fun i => hframe, by simp [hpc], fun i => Or.inl rfl, by simp, by simp [Pc.stopping]⟩
  case h_3 | h_4 =>
    cases h
    refine ⟨rfl, fun i => hframe, by simp [hpc], fun i => Or.inl rfl, ?_, ?_⟩ <;>
      simp only [State.goto, Function.update_self, hflag] <;> split <;> simp_all [Pc.stopping]
  case h_6 =>
    unfold ringWait at h
    split at h <;> cases h
    exact ⟨rfl, fun i => hframe, by simp [hpc], fun i => Or.inl rfl, by simp, by simp [Pc.stopping]⟩
  case h_11 =>
    obtain ⟨j, -, h⟩ := Option.bind_eq_some_iff.mp h
    split at h <;> cases h
    exact ⟨rfl, fun i => hframe, by simp [hpc], cmd_update _ (Or.inl rfl), by simp,
      by simp [Pc.stopping]⟩
  case h_12 | h_13 | h_14 =>
    obtain ⟨j, -, rfl⟩ := Option.map_eq_some_iff.mp h
    exact ⟨rfl, fun i => hframe, by simp [hpc], cmd_update _ (by simp), by simp,
      by simp [Pc.stopping]⟩
  case h_15 | h_16 | h_17 | h_18 | h_19 | h_20 | h_21 | h_22 =>
    simp [hpc, Pc.stopping] at hruns
  case h_23 => cases h
  all_goals
    cases h
    exact ⟨rfl, fun i => hframe, by simp [hpc], fun i => Or.inl rfl, by simp, by simp [Pc.stopping]⟩

theorem threadStep_quiet (hn : NoStop s) (hpc : (s.thr k).pc ≠ .failFlag)
    (h : threadStep cfg s k = some s') : QuietStep s s' k := by
  unfold threadStep at h
  cases hm : cfg.method k with
  | none => simp [hm] at h
  | some m =>
    cases m with
    | initialThread => exact initialThread_quiet hn (by simpa only [hm] using h)
    | sourceThread =>
      exact (sourceThread_move hm (by simpa only [hm] using h)).quiet hn hpc
    | processThread =>
      exact (processThread_move hm (by simpa only [hm] using h)).quiet hn hpc
    | finalizationThread =>
      exact (finalizationThread_move hm (by simpa only [hm] using h)).quiet hn hpc

/-! ### A pipeline that nobody stops stays where it is -/

/-- No thread has been told to stop, `pipeline_thread` waits in its first join at
the latest, and `pipeline_destroy` waits for `pipeline_thread`. -/
structure Held (s : State) : Prop where
  quiet : NoStop s
  main : ∀ i, s.main.joined i = false
  destroyer : s.destroyer = .idle ∨ s.destroyer = .join

theorem NoStop.returned (hn : NoStop s) (hr : (s.thr i).pc.returned) : (s.thr i).pc = .failed := by
  rcases hr with hr | hr
  · have := hn.runs i
    simp [hr, Pc.stopping] at this
  · exact hr

/-- A start that fails without setting the flag is that of an internal module. -/
def Config.FailsQuietly (cfg : Config) : Prop := ∀ f, cfg.Fails f → ¬ cfg.external f

theorem StartInv.not_failing (hst : StartInv cfg s.startView) (hq : cfg.FailsQuietly) :
    (s.thr i).pc ≠ .failFlag ∧ (s.thr i).pc ≠ .failed := by
  have hfail := (hst.modules i).failing
  simp only [State.startView] at hfail
  refine ⟨fun hpc => ?_, fun hpc => ?_⟩
  · obtain ⟨hn, hext⟩ := hfail (Or.inl hpc)
    exact hq i (hst.fails (by simp [hpc]) (by simp [hpc]) hn).1 hext
  · obtain ⟨hn, hext⟩ := hfail (Or.inr (Or.inr hpc))
    exact hq i (hst.fails (by simp [hpc]) (by simp [hpc]) hn).1 hext

theorem Held.initial : Held (initial cfg) := by
  refine ⟨⟨rfl, fun i hu => absurd rfl hu, ?_, fun i => rfl⟩, fun i => rfl, Or.inl rfl⟩
  rintro i (h | h) <;> simp [TmkDcl.Pipeline.initial] at h

theorem Held.main_step (hh : Held s) (hst : StartInv cfg s.startView) (hq : cfg.FailsQuietly)
    (hn : 0 < cfg.modulesCnt) (h : MainMove cfg s s') : Held s' := by
  have hret : ∀ i, ¬ (s.thr i).pc.returned := fun i hr =>
    (hst.not_failing hq).2 (hh.quiet.returned hr)
  obtain ⟨⟨hflag, hbox, hread, hruns⟩, hmain, hdes⟩ := hh
  cases h
  case create k hm hk =>
    refine ⟨⟨hflag, fun i hu => ?_, fun i hr => ?_, fun i => ?_⟩, fun i => rfl, hdes⟩
    all_goals
      simp only [createModule] at *
      by_cases hi : i = k
    · simp [hi]
    · rw [Function.update_of_ne hi] at hu ⊢
      exact hbox i hu
    · simp [hi] at hr
    · rw [Function.update_of_ne hi] at hr ⊢
      exact hread i hr
    · simp [hi, Pc.stopping]
    · rw [Function.update_of_ne hi]
      exact hruns i
  case checkLive =>
    refine ⟨⟨hflag, hbox, hread, hruns⟩, fun i => ?_, hdes⟩
    dsimp only
    split <;> simp [MainPc.joined]
  case join k hm hk hr =>
    exfalso
    obtain rfl : k = 0 := by simpa [hm, MainPc.joined] using hmain 0
    have hreal : s.realStarted = cfg.modulesCnt := by
      rcases hst.over_cases (by simp [hm, MainPc.starting]) with he | ⟨-, hr'⟩
      · exact he
      · exact absurd hr' (hret _)
    obtain ⟨hu, hp⟩ := hst.init_of_lt (i := 0) (by simp [hreal, hn])
    have hidx := (hst.modules 0).idx (hmain 0)
    have hok := hst.started 0 (by simp [hreal, hn])
    rw [if_neg hu, if_neg fun hs => by rw [hs] at hp; cases hp] at hidx
    rcases hr with hr | hr
    · exact hok (Config.startIdx_eq.mp (hidx.symm.trans hr))
    · exact hret 0 hr
  case allJoined k hm hk =>
    have := hmain 0
    simp [hm, MainPc.joined] at this
    omega
  case finish hm =>
    have := hmain 0
    simp [hm, MainPc.joined] at this
  case waitStart | failed | started | joinFailed | allStarted | decide | setLive | live =>
    exact ⟨⟨hflag, hbox, hread, hruns⟩, fun i => rfl, hdes⟩

theorem reach_held (hq : cfg.FailsQuietly) (hn : 0 < cfg.modulesCnt) (h : (sys cfg).Reach noRaise s) :
    Held s := by
  refine h.invariant Held ?_ fun s a s' hr hh hok hs => ?_
  · rintro s rfl
    exact .initial
  · have hst := startInv hr
    have hchild : ∀ {k}, ChildMove cfg s k a s' → Held s' := fun hm => by
      obtain ⟨⟨hflag, hbox, hread, hruns⟩, hmain, hdes⟩ := hh
      cases hm <;> exact ⟨⟨hflag, hbox, hread, hruns⟩, hmain, hdes⟩
    cases a with
    | thread k =>
      have hquiet := threadStep_quiet hh.quiet (hst.not_failing hq).1 hs
      obtain ⟨hmain, -, -⟩ := (threadStep_start hs).frame
      have hdes := (threadStep_frame hs).destroyer
      refine ⟨hh.quiet.step hquiet, fun i => ?_, ?_⟩
      · simp only [State.startView] at hmain
        rw [hmain]
        exact hh.main i
      · rw [hdes]
        exact hh.destroyer
    | child k => exact hchild (pipelineProcess_move hs)
    | write k d => exact hchild (actionWrite_move hs)
    | ret k status => exact hchild (actionReturn_move hs)
    | main => exact hh.main_step hst hq hn (pipelineThread_move hs)
    | destroy =>
      obtain ⟨hquiet, hmain, hdes⟩ := hh
      cases pipelineDestroy_move hs with
      | call _ => exact ⟨⟨hquiet.flag, hquiet.box, hquiet.read, hquiet.runs⟩, hmain, Or.inr rfl⟩
      | join _ hm =>
        have := hmain 0
        simp [hm, MainPc.joined] at this
      | cleanup hd => rcases hdes with hdes | hdes <;> simp [hdes] at hd
    | raise => exact absurd rfl hok

end Steps

end TmkDcl.Pipeline
