import TmkDcl.Pipeline.Start

/-!
# Runs through the start of a pipeline

The runs in which one party after the other takes its steps: the modules are
started in list order, a module fails, the modules are set live. They lead into
the states that the statements about every run have to deal with.
-/

namespace TmkDcl.Pipeline

/-- Nobody outside the program sets the exit flag. -/
def noRaise (_ : State) (a : Label) : Prop := a ≠ .raise

/-- The first statement of the loop of a thread method. -/
def ThreadMethod.entry : ThreadMethod → Pc
  | .sourceThread | .initialThread => .checkExit
  | .processThread | .finalizationThread => .waitCmd

/-- The child of a module that has just been started. -/
def ThreadMethod.forked : ThreadMethod → Child → Child
  | .sourceThread, _ | .processThread, _ => ⟨.waitJob, -1, false⟩
  | _, c => c

/-- The steps that start the module `k`. -/
def startSteps (k : ℕ) : List Label := [.main, .thread k, .thread k, .main, .main]

/-- The state after the start of the module `k`. -/
def startedState (s : State) (k : ℕ) (m : ThreadMethod) (id : ℕ) : State :=
  { s with
    box := Function.update s.box k { s.box k with newCmd := 0, result := 1, cmd := .job }
    thr := Function.update s.thr k { s.thr k with pc := m.entry }
    idx := Function.update s.idx k id
    st := Function.update s.st k .init
    child := Function.update s.child k (m.forked (s.child k))
    realStarted := s.realStarted + 1
    main := .startNext (k + 1) }

/-- The steps of a module with a child that fails to start. -/
def failSteps (f : ℕ) : List Label :=
  [.main, .thread f, .thread f, .thread f, .main, .main, .main]

/-- The state after the failed start of the module `f`. -/
def failedState (s : State) (f : ℕ) : State :=
  { s with
    box := Function.update s.box f { s.box f with newCmd := 0, result := 1, cmd := .job }
    thr := Function.update s.thr f { s.thr f with pc := .failed }
    idx := Function.update s.idx f (-1)
    st := Function.update s.st f .error
    exitFlag := true
    plState := .error
    main := .decide }

/-- The state after all modules from `k` on have been switched to `MD_STATE_LIVE`. -/
def liveState (cfg : Config) (s : State) (k : ℕ) : State :=
  { s with
    st := fun i => if k ≤ i ∧ i < cfg.modulesCnt then pipelineModuleSetState .live (s.st i)
      else s.st i
    plState := .live
    main := .join 0 }

section Runs

variable {cfg : Config} {s s' : State} {f i k n : ℕ} {ok : State → Label → Prop}

theorem exec_start {m : ThreadMethod} {id : ℕ} (hm : s.main = .startNext k)
    (hk : k < cfg.modulesCnt) (hmeth : cfg.method k = some m) (hid : cfg.processStart k = some id)
    (hc : s.startControl = 0) :
    (sys cfg).exec s (startSteps k) = some (startedState s k m id) := by
  have hne : (id : ℤ) ≠ -1 := by omega
  cases m <;>
    simp [Lts.exec, sys, step, startSteps, startedState, pipelineThread, hm, hk, createModule,
      threadStep, hmeth, sourceThread, processThread, finalizationThread, initialThread,
      startExternal, startInternal, hid, postStart, hc, hne, pipelineModuleSetState,
      ThreadMethod.entry, ThreadMethod.forked]

theorem exec_fail (hm : s.main = .startNext f) (hf : f < cfg.modulesCnt) (hext : cfg.external f)
    (hid : cfg.processStart f = none) (hc : s.startControl = 0) :
    (sys cfg).exec s (failSteps f) = some (failedState s f) := by
  rcases hext with hmeth | hmeth <;>
    simp [Lts.exec, sys, step, failSteps, failedState, pipelineThread, hm, hf, createModule,
      threadStep, hmeth, sourceThread, processThread, startExternal, hid, postStart, raiseExit, hc,
      pipelineModuleSetState, Pc.returned]

theorem exec_setLive (hm : s.main = .setLive k) (hk : k ≤ cfg.modulesCnt) :
    (sys cfg).exec s (List.replicate (cfg.modulesCnt - k + 1) .main) =
      some (liveState cfg s k) := by
  induction hn : cfg.modulesCnt - k generalizing s k with
  | zero =>
    have hlt : ¬ k < cfg.modulesCnt := by omega
    have hst : ∀ i, ¬ (k ≤ i ∧ i < cfg.modulesCnt) := fun i => by omega
    simp [Lts.exec, sys, step, pipelineThread, hm, hlt, liveState, hst]
  | succ n ih =>
    have hlt : k < cfg.modulesCnt := by omega
    have hstep : (sys cfg).step s .main = some { s with
        st := Function.update s.st k (pipelineModuleSetState .live (s.st k))
        main := .setLive (k + 1) } := by
      simp [sys, step, pipelineThread, hm, hlt]
    rw [List.replicate_succ, Lts.exec, hstep, Option.bind_some, ih rfl (by omega) (by omega)]
    simp only [liveState, Option.some.injEq, State.mk.injEq, true_and, and_true]
    funext i
    by_cases hi : i = k
    · subst hi
      simp [hlt]
    · have hle : k + 1 ≤ i ↔ k ≤ i := by omega
      simp [hi, hle]

/-- The steps of `pipeline_thread` from its verdict on. -/
def liveSteps (n : ℕ) : List Label := [.main, .main] ++ List.replicate (n + 1) .main

theorem exec_live (hm : s.main = .decide) (hr : 2 ≤ s.realStarted) :
    (sys cfg).exec s (liveSteps cfg.modulesCnt) =
      some (liveState cfg { s with plState := .init, main := .setLive 0 } 0) := by
  refine Lts.exec_append (t := { s with plState := .init, main := .setLive 0 }) ?_ ?_
  · simp [Lts.exec, sys, step, pipelineThread, hm, hr]
  · exact exec_setLive (k := 0) rfl (Nat.zero_le _)

end Runs

/-! ### Reaching them -/

section Reach

variable {cfg : Config} {s t : State} {f i k : ℕ} {ok : State → Label → Prop}

theorem reach_of_exec {as : List Label} (h : (sys cfg).Reach noRaise s) (hr : .raise ∉ as)
    (hs : (sys cfg).exec s as = some t) : (sys cfg).Reach noRaise t :=
  h.steps (Lts.steps_of_exec (fun _ _ ha he => hr (he ▸ ha)) hs)

theorem StartInv.control_startNext (h : (sys cfg).Reach ok s) (hm : s.main = .startNext k) :
    s.startControl = 0 :=
  (startInv h).control_zero fun j hj => by
    simp only [State.startView, hm] at hj
    cases hj

/-- The start loop comes to the module `k` when all modules before it start. -/
theorem exists_startNext (hk : k ≤ cfg.modulesCnt)
    (hok : ∀ j, j < k → cfg.processStart j ≠ none ∧ cfg.method j ≠ none) :
    ∃ s, (sys cfg).Reach noRaise s ∧ s.main = .startNext k ∧ s.destroyer = .idle := by
  induction k with
  | zero => exact ⟨_, .init rfl, rfl, rfl⟩
  | succ k ih =>
    obtain ⟨s, hr, hm, hd⟩ := ih (by omega) fun j hj => hok j (by omega)
    obtain ⟨id, hid⟩ := Option.ne_none_iff_exists'.mp (hok k (by omega)).1
    obtain ⟨m, hmeth⟩ := Option.ne_none_iff_exists'.mp (hok k (by omega)).2
    have hs := exec_start hm (by omega) hmeth hid (StartInv.control_startNext hr hm)
    exact ⟨_, reach_of_exec hr (by simp [startSteps]) hs, rfl, hd⟩

end Reach

end TmkDcl.Pipeline
