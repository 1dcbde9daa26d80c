import TmkDcl.Pipeline.Shutdown

/-!
# A pipeline with an internal head (pipeline.c, pipeline_server.c)

`initial_thread` fills a slot itself: it has a record in the process table and no child. At the end
it posts the stop command to this record and waits for the answer if the next module's `idx` is
above 1. A run without that wait is one of a pipeline in which a child answers the head: the
steps of this child and of the head's exchange with it go unnoticed by all others.
-/

namespace TmkDcl.Pipeline

/-- The thread method of the place `p` of a chain of `len` modules with an internal head. -/
def initialMethod (len p : ℕ) : ThreadMethod := if p = 0 then .initialThread else chainMethod len p

/-- The links of the modules form a chain from an `initial_thread`. -/
structure InitialChain (cfg : Config) where
  path : List ℕ
  nodup : path.Nodup
  mem_path : ∀ i, i ∈ path ↔ i < cfg.modulesCnt
  two_le : 2 ≤ path.length
  next_eq : ∀ p i, path[p]? = some i → cfg.next i = path[p + 1]?
  method_eq : ∀ p i, path[p]? = some i → cfg.method i = some (initialMethod path.length p)

/-! ### The chain with a child for its head -/

def ModuleDescription.host (mdesc : ModuleDescription) : ModuleDescription :=
  if mdesc.type = .first then { mdesc with mode := .external } else mdesc

/-- A `source_thread` in place of the `initial_thread`. -/
def Config.hosted (cfg : Config) : Config := { cfg with modules := cfg.modules.map .host }

def ThreadMethod.host : ThreadMethod → ThreadMethod
  | .initialThread => .sourceThread
  | m => m

section Hosted

variable {cfg : Config} {i h : ℕ} {s : State}

theorem threadMethod_host (mdesc : ModuleDescription) :
    threadMethod mdesc.host = (threadMethod mdesc).map .host := by
  obtain ⟨id, type, mode, next⟩ := mdesc
  cases type <;> cases mode <;> rfl

theorem host_id (mdesc : ModuleDescription) : mdesc.host.id = mdesc.id := by
  rw [ModuleDescription.host]
  split <;> rfl

theorem host_next (mdesc : ModuleDescription) : mdesc.host.next = mdesc.next := by
  rw [ModuleDescription.host]
  split <;> rfl

theorem hosted_modulesCnt (cfg : Config) : cfg.hosted.modulesCnt = cfg.modulesCnt :=
  List.length_map _

theorem hosted_method (cfg : Config) (i : ℕ) :
    cfg.hosted.method i = (cfg.method i).map .host := by
  rw [Config.method, Config.method, Config.hosted, List.getElem?_map]
  cases cfg.modules[i]? with
  | none => rfl
  | some mdesc => exact threadMethod_host mdesc

theorem hosted_next (cfg : Config) (i : ℕ) : cfg.hosted.next i = cfg.next i := by
  rw [Config.next, Config.next, Config.hosted, List.getElem?_map]
  cases cfg.modules[i]? with
  | none => rfl
  | some mdesc =>
    simp only [Option.map_some, Option.bind_some, pipelineModuleGet, List.findIdx?_map,
      Function.comp_def, host_id, host_next]

/-- The chain with a child for its head is one from a `source_thread`. -/
def InitialChain.hosted (ch : InitialChain cfg) : Chain cfg.hosted where
  path := ch.path
  nodup := ch.nodup
  mem_path := fun i => (hosted_modulesCnt cfg).symm ▸ ch.mem_path i
  two_le := ch.two_le
  next_eq := fun p i hp => (hosted_next cfg i).trans (ch.next_eq p i hp)
  method_eq := by
    intro p i hp
    rw [hosted_method, ch.method_eq p i hp, initialMethod]
    split
    · rename_i hp0
      rw [hp0]
      rfl
    · rename_i hp0
      rw [chainMethod, if_neg hp0]
      split <;> rfl

end Hosted

/-! ### What the other parties see -/

/-- The state without the process record and the child of the head, and without what no statement
tests; the program points of the head are mapped by `f`. -/
def State.view (h : ℕ) (f : Pc → Pc) (s : State) : State :=
  { s with
    thr := Function.update s.thr h { s.thr h with pc := f (s.thr h).pc }
    proc := Function.update s.proc h ⟨0, 0, .stop, 0, 0⟩
    child := Function.update s.child h ⟨.absent, -1, false⟩
    chunk := fun _ => []
    log := [] }

section View

variable {cfg : Config} {s s' : State} {i h : ℕ} {f : Pc → Pc} {a : Label}

@[simp] theorem view_thr_of_ne (hi : i ≠ h) : (s.view h f).thr i = s.thr i :=
  Function.update_of_ne hi ..

@[simp] theorem view_thr_self : (s.view h f).thr h = { s.thr h with pc := f (s.thr h).pc } :=
  Function.update_self ..

@[simp] theorem view_proc_of_ne (hi : i ≠ h) : (s.view h f).proc i = s.proc i :=
  Function.update_of_ne hi ..

@[simp] theorem view_child_of_ne (hi : i ≠ h) : (s.view h f).child i = s.child i :=
  Function.update_of_ne hi ..

theorem view_processThread (hi : i ≠ h) : (processThread cfg s i).map (State.view h f) =
    (processThread cfg (s.view h f) i).map (State.view h id) := by
  have hthr : (s.view h f).thr i = s.thr i := view_thr_of_ne hi
  have hne := hi.symm
  simp only [processThread, hthr]
  cases (s.thr i).pc with
  | start =>
    simp only [startExternal]
    cases cfg.processStart i <;> simp [State.view, hi, hne, Function.update_comm hi]
  | waitCmd | waitResult | stopWaitResult =>
    simp only [waitCmd, waitResult, view_proc_of_ne hi]
    split <;> simp_all [State.view, Function.update_comm hi]
  | waitNext | putCmd | putOffset | postNext | stopWaitNext | stopPutCmd | stopPostNext =>
    simp only [waitNext, putCmd, putOffset, postNext]
    cases cfg.next i with
    | none => rfl
    | some j =>
      simp only [Option.bind_some, Option.map_some]
      try split
      all_goals simp_all [State.view, Function.update_comm hi]
  | _ =>
    simp [raiseExit, postStart, readCmd, readOffset, postResult, setCmd, setOffs, postJob, ringPut,
      ringPost, State.view, hi, hne, Function.update_comm hi]

theorem view_finalizationThread (hi : i ≠ h) :
    (finalizationThread cfg s i).map (State.view h f) =
      (finalizationThread cfg (s.view h f) i).map (State.view h id) := by
  have hthr : (s.view h f).thr i = s.thr i := view_thr_of_ne hi
  have hne := hi.symm
  simp only [finalizationThread, hthr]
  cases (s.thr i).pc with
  | start =>
    simp only [startInternal]
    cases cfg.processStart i <;> simp [State.view, hi, hne, Function.update_comm hi]
  | waitCmd =>
    simp only [waitCmd]
    split <;> simp_all [State.view, Function.update_comm hi]
  | _ =>
    simp [postStart, readCmd, readOffset, postResult, cleanData, setInit, ringPut, ringPost,
      State.view, hi, hne, Function.update_comm hi]

theorem view_pipelineProcess (hi : i ≠ h) : (pipelineProcess cfg s i).map (State.view h f) =
    (pipelineProcess cfg (s.view h f) i).map (State.view h id) := by
  simp only [pipelineProcess, view_proc_of_ne hi, view_child_of_ne hi]
  cases (s.child i).pc with
  | waitJob | action =>
    simp only
    split <;> simp_all [State.view, Function.update_comm hi]
  | readCmd =>
    cases (s.proc i).cmd <;> simp [State.view, Function.update_comm hi]
  | _ => simp [State.view, Function.update_comm hi]

theorem view_actionWrite (hi : i ≠ h) (d : Chunk) :
    (actionWrite cfg s i d).map (State.view h f) =
      (actionWrite cfg (s.view h f) i d).map (State.view h id) := by
  simp only [actionWrite, view_child_of_ne hi]
  split <;> simp_all [State.view, Function.update_comm hi]

theorem view_actionReturn (hi : i ≠ h) (status : ℤ) :
    (actionReturn cfg s i status).map (State.view h f) =
      (actionReturn cfg (s.view h f) i status).map (State.view h id) := by
  simp only [actionReturn, view_child_of_ne hi, view_proc_of_ne hi]
  split <;> simp_all [State.view, Function.update_comm hi]

theorem view_createModule (hf : f .start = .start) (k : ℕ) (m : MainPc) :
    State.view h f { createModule s k with main := m } =
      State.view h id { createModule (s.view h f) k with main := m } := by
  by_cases hk : k = h
  · subst hk
    simp [createModule, State.view, hf]
  · simp [createModule, State.view, hk, Ne.symm hk, Function.update_comm hk]

/-- `pipeline_thread` sees of the head only whether it has returned. -/
theorem view_pipelineThread (hf : f .start = .start)
    (hr : ∀ pc : Pc, (f pc).returned ↔ pc.returned) :
    (pipelineThread cfg s).map (State.view h f) =
      (pipelineThread cfg (s.view h f)).map (State.view h id) := by
  have hret : ∀ k, ((s.view h f).thr k).pc.returned ↔ (s.thr k).pc.returned := by
    intro k
    by_cases hk : k = h
    · rw [hk, view_thr_self]
      exact hr _
    · rw [view_thr_of_ne hk]
  have hmain : (s.view h f).main = s.main := rfl
  simp only [pipelineThread, hmain, hret]
  cases s.main with
  | startNext k =>
    simp only
    split
    · exact congrArg some (view_createModule hf k _)
    · simp [State.view]
  | waitStart k | joinFailed k | setLive k =>
    simp only
    split <;> simp_all [State.view]
  | checkIdx k =>
    have hidx : (s.view h f).idx = s.idx := rfl
    simp only [hidx]
    split <;> simp [State.view]
  | join k =>
    have hidx : (s.view h f).idx = s.idx := rfl
    simp only [hidx]
    split
    · split <;> simp [State.view]
    · simp [State.view]
  | decide =>
    have hreal : (s.view h f).realStarted = s.realStarted := rfl
    simp only [hreal]
    simp [State.view]
  | checkLive =>
    have hstate : (s.view h f).plState = s.plState := rfl
    simp only [hstate]
    simp [State.view]
  | finish | returned => simp [State.view]

theorem view_pipelineDestroy : (pipelineDestroy s).map (State.view h f) =
    (pipelineDestroy (s.view h f)).map (State.view h id) := by
  have hdestroyer : (s.view h f).destroyer = s.destroyer := rfl
  have hmain : (s.view h f).main = s.main := rfl
  simp only [pipelineDestroy, hdestroyer, hmain]
  cases s.destroyer with
  | join =>
    simp only
    split <;> simp [State.view]
  | _ => simp [State.view]

/-- Nobody sees the steps of the head's child. -/
theorem ChildMove.view (hm : ChildMove cfg s h a s') : s'.view h f = s.view h f := by
  cases hm <;> simp [State.view]

theorem childSteps_view (hs : (sys cfg).Steps (childStep h) s s') : s'.view h f = s.view h f := by
  refine hs.invariant (fun u => u.view h f = s.view h f) (fun u a u' hu ha hstep => ?_) rfl
  rcases ha with rfl | rfl
  · exact (pipelineProcess_move hstep).view.trans hu
  · exact (actionReturn_move hstep).view.trans hu

end View

/-! ### The head and its host -/

/-- The statements of `initial_thread` that a `source_thread` has as well. -/
def Pc.shared : Pc → Bool
  | .uninit | .start | .startPost | .checkExit | .checkState | .readOwnCmd | .popWait | .popTake
  | .waitNext | .putCmd | .putOffset | .postNext | .stopWaitNext | .stopPutCmd | .stopPostNext
  | .setInit | .done => true
  | _ => false

/-- The statements of `initial_thread` up to the test of the next module's `idx`. -/
def Pc.initial : Pc → Bool
  | .writeTest | .setCmd | .setOffs | .checkNextIdx => true
  | pc => pc.shared

/-- Where the host of an `initial_thread` is: it begins the exchange with its child when the
`initial_thread` ends it. -/
def Pc.host : Pc → Pc
  | .writeTest | .setOffs => .setCmd
  | .checkNextIdx => .stopSetCmd
  | pc => pc

section Head

variable {cfg : Config} {s : State} {h : ℕ} {f : Pc → Pc}

theorem Pc.host_shared {pc : Pc} (hpc : pc.shared = true) : pc.host = pc := by
  cases pc <;> first | rfl | cases hpc

theorem view_sourceThread (hpc : (s.thr h).pc.shared = true) :
    (sourceThread cfg s h).map (State.view h id) =
      (sourceThread cfg (s.view h id) h).map (State.view h id) := by
  simp only [sourceThread, view_thr_self, id]
  cases hcase : (s.thr h).pc with
  | start =>
    simp only [startExternal]
    cases cfg.processStart h <;> simp [State.view]
  | popWait =>
    have hring : (s.view h id).ring = s.ring := rfl
    simp only [ringWait, hring]
    split <;> simp [State.view]
  | waitNext | putCmd | putOffset | postNext | stopWaitNext | stopPutCmd | stopPostNext =>
    have hbox : (s.view h id).box = s.box := rfl
    simp only [waitNext, putCmd, putOffset, postNext, hbox]
    cases cfg.next h with
    | none => rfl
    | some j =>
      simp only [Option.bind_some, Option.map_some]
      try split
      all_goals simp [State.view]
  | checkExit | checkState | startPost | readOwnCmd | popTake | setInit =>
    simp [postStart, readCmd, ringTake, setInit, State.view]
  | uninit | done => rfl
  | _ => simp [hcase, Pc.shared] at hpc

theorem view_initialThread (hid : cfg.processStart h ≠ none) (hpc : (s.thr h).pc.shared = true) :
    (initialThread cfg s h).map (State.view h .host) =
      (sourceThread cfg (s.view h .host) h).map (State.view h id) := by
  simp only [initialThread, sourceThread, view_thr_self, Pc.host_shared hpc]
  cases hcase : (s.thr h).pc with
  | start =>
    obtain ⟨id, hid⟩ := Option.ne_none_iff_exists'.mp hid
    simp [startInternal, startExternal, hid, State.view, Pc.host]
  | popWait =>
    have hring : (s.view h .host).ring = s.ring := rfl
    simp only [ringWait, hring]
    split <;> simp [State.view, Pc.host]
  | waitNext | putCmd | putOffset | postNext | stopWaitNext | stopPutCmd | stopPostNext =>
    have hbox : (s.view h .host).box = s.box := rfl
    simp only [waitNext, putCmd, putOffset, postNext, hbox]
    cases cfg.next h with
    | none => rfl
    | some j =>
      simp only [Option.bind_some, Option.map_some]
      try split
      all_goals simp [State.view, Pc.host]
  | checkExit =>
    have hexit : (s.view h .host).exitFlag = s.exitFlag := rfl
    simp only [hexit]
    split <;> simp [State.view, Pc.host]
  | checkState =>
    have hst : (s.view h .host).st = s.st := rfl
    simp only [hst]
    split <;> simp [State.view, Pc.host]
  | startPost | readOwnCmd | popTake | setInit =>
    simp [postStart, readCmd, ringTake, setInit, State.view, Pc.host]
  | uninit | done => rfl
  | _ => simp [hcase, Pc.shared] at hpc

theorem sourceThread_hosted (cfg : Config) : sourceThread cfg.hosted = sourceThread cfg := by
  funext s i
  simp only [sourceThread, waitNext, putCmd, putOffset, postNext, hosted_next]
  rfl

theorem view_goto (g : Pc → Pc) (pc : Pc) :
    (s.goto h pc).view h f = ((s.view h g).goto h pc).view h f := by
  simp [State.view]

end Head

/-! ### The exchange of the host with its child -/

section Exchange

variable {cfg : Config} {s s' t u : State} {pc : Pc}

theorem head_step (ch : Chain cfg) (s : State) :
    (sys cfg).step s (.thread ch.head) = sourceThread cfg s ch.head := by
  simp only [sys, step, threadStep, ch.method_head]

theorem exchange_answered (ch : Chain cfg) (hr : (sys cfg).Reach noMinusOne t)
    (hw : (t.thr ch.head).pc = .waitResult ∧ pc = .waitNext ∨
      (t.thr ch.head).pc = .stopWaitResult ∧ pc = .setInit) :
    ∃ t', (sys cfg).Steps noMinusOne t t' ∧
      t'.view ch.head id = (t.goto ch.head pc).view ch.head id := by
  obtain ⟨u, hu, hpos, hthr⟩ := answerable ch hr (hw.imp And.left And.left)
  have hsteps : (sys cfg).Steps noMinusOne t u := hu.mono fun s a ha i hi => by
    rcases ha with rfl | rfl <;> simp at hi
  have hgoto : (u.goto ch.head pc).view ch.head id = (t.goto ch.head pc).view ch.head id := by
    rw [view_goto id, childSteps_view hu, ← view_goto id]
  obtain ⟨u', hu', hview⟩ : ∃ u', (sys cfg).step u (.thread ch.head) = some u' ∧
      u'.view ch.head id = (u.goto ch.head pc).view ch.head id := by
    rw [head_step]
    rcases hw with ⟨hpc, rfl⟩ | ⟨hpc, rfl⟩ <;> rw [← hthr] at hpc <;>
      simp [sourceThread, hpc, waitResult, hpos, State.view]
  exact ⟨u', hsteps.tail ⟨_, by simp [noMinusOne], hu'⟩, hview.trans hgoto⟩

theorem exchange_asked (ch : Chain cfg) {n : ℕ}
    (h : (sys cfg).exec t (List.replicate n (.thread ch.head)) = some u) :
    (sys cfg).Steps noMinusOne t u :=
  Lts.steps_of_exec (fun _ a ha i hi => by
    rw [List.eq_of_mem_replicate ha] at hi
    cases hi) h

theorem exchange_job (ch : Chain cfg) (hr : (sys cfg).Reach noMinusOne t)
    (hpc : (t.thr ch.head).pc = .setCmd) :
    ∃ t', (sys cfg).Steps noMinusOne t t' ∧
      t'.view ch.head id = (t.goto ch.head .waitNext).view ch.head id := by
  obtain ⟨u, hu, hpcu, hview⟩ : ∃ u, (sys cfg).exec t (List.replicate 3 (.thread ch.head)) = some u ∧
      (u.thr ch.head).pc = .waitResult ∧
      u.view ch.head id = (t.goto ch.head .waitResult).view ch.head id := by
    simp [List.replicate, Lts.exec, head_step, sourceThread, hpc, setCmd, setOffs, postJob, State.view]
  have hsteps := exchange_asked ch hu
  obtain ⟨t', ht', hview'⟩ := exchange_answered ch (hr.steps hsteps) (.inl ⟨hpcu, rfl⟩)
  refine ⟨t', hsteps.trans ht', hview'.trans ?_⟩
  rw [view_goto id, hview, ← view_goto id]
  simp [State.view]

theorem exchange_stop (ch : Chain cfg) (hr : (sys cfg).Reach noMinusOne t)
    (hpc : (t.thr ch.head).pc = .stopSetCmd) :
    ∃ t', (sys cfg).Steps noMinusOne t t' ∧
      t'.view ch.head id = (t.goto ch.head .setInit).view ch.head id := by
  obtain ⟨u, hu, hpcu, hview⟩ : ∃ u, (sys cfg).exec t (List.replicate 2 (.thread ch.head)) = some u ∧
      (u.thr ch.head).pc = .stopWaitResult ∧
      u.view ch.head id = (t.goto ch.head .stopWaitResult).view ch.head id := by
    simp [List.replicate, Lts.exec, head_step, sourceThread, hpc, setCmd, postJob, State.view]
  have hsteps := exchange_asked ch hu
  obtain ⟨t', ht', hview'⟩ := exchange_answered ch (hr.steps hsteps) (.inr ⟨hpcu, rfl⟩)
  refine ⟨t', hsteps.trans ht', hview'.trans ?_⟩
  rw [view_goto id, hview, ← view_goto id]
  simp [State.view]

end Exchange

/-! ### Every run with an internal head is one of the host -/

/-- `t` is the state `s` with a child for the head `h`, not at work. -/
structure Hosts (h : ℕ) (s t : State) : Prop where
  view_eq : s.view h .host = t.view h id
  absent : (s.child h).pc = .absent
  initial : (s.thr h).pc.initial = true

/-- A step of another party than the head and its child. -/
def Label.other (h : ℕ) : Label → Prop
  | .thread i | .child i | .write i _ | .ret i _ => i ≠ h
  | _ => True

section Simulation

variable {cfg : Config} {s s' t : State} {h i : ℕ} {a : Label}

theorem Hosts.thr (hh : Hosts h s t) : t.thr h = { s.thr h with pc := (s.thr h).pc.host } := by
  have hthr := congrFun (congrArg State.thr hh.view_eq) h
  rw [view_thr_self, view_thr_self] at hthr
  exact hthr.symm

theorem InitialChain.method_cases (ch : InitialChain cfg) (hi : i < cfg.modulesCnt)
    (hne : i ≠ ch.hosted.head) :
    cfg.method i = some .processThread ∨ cfg.method i = some .finalizationThread := by
  have hlt : i < cfg.hosted.modulesCnt := (hosted_modulesCnt cfg).symm ▸ hi
  have hpos : ch.hosted.pos i ≠ 0 := fun hp => hne (ch.hosted.eq_head hlt hp)
  rw [ch.method_eq _ _ (ch.hosted.path_pos hlt), initialMethod, if_neg hpos, chainMethod, if_neg hpos]
  split
  · exact Or.inr rfl
  · exact Or.inl rfl

theorem InitialChain.method_head (ch : InitialChain cfg) :
    cfg.method ch.hosted.head = some .initialThread :=
  ch.method_eq 0 _ ch.hosted.path_head

theorem InitialChain.other_move (ch : InitialChain cfg) (hne : i ≠ ch.hosted.head)
    (hs : threadStep cfg s i = some s') : ThreadMove cfg s i s' := by
  have hmethod := ch.method_cases (threadStep_lt hs) hne
  unfold threadStep at hs
  rcases hmethod with hm | hm
  · exact processThread_move hm (by simpa only [hm] using hs)
  · exact finalizationThread_move hm (by simpa only [hm] using hs)

theorem threadStep_hosted (hm : cfg.method i ≠ some .initialThread) :
    threadStep cfg.hosted s i = threadStep cfg s i := by
  simp only [threadStep, hosted_method]
  cases hcase : cfg.method i with
  | none => rfl
  | some m =>
    cases m with
    | initialThread => exact absurd hcase hm
    | sourceThread => exact congrFun (congrFun (sourceThread_hosted cfg) s) i
    | processThread =>
      simp only [Option.map_some, ThreadMethod.host, processThread, waitNext, putCmd, putOffset,
        postNext, hosted_next]
      rfl
    | finalizationThread => rfl

theorem pipelineThread_hosted : pipelineThread cfg.hosted s = pipelineThread cfg s := by
  simp only [pipelineThread, hosted_modulesCnt]

theorem Pc.host_returned (pc : Pc) : pc.host.returned ↔ pc.returned := by
  cases pc <;> simp [Pc.host, Pc.returned]

theorem view_step (ch : InitialChain cfg) (ha : a.other ch.hosted.head)
    (hv : s.view ch.hosted.head .host = t.view ch.hosted.head id) :
    (step cfg s a).map (State.view ch.hosted.head .host) =
      (step cfg.hosted t a).map (State.view ch.hosted.head id) := by
  cases a with
  | thread i =>
    have hne : i ≠ ch.hosted.head := ha
    show (threadStep cfg s i).map _ = (threadStep cfg.hosted t i).map _
    by_cases hi : i < cfg.modulesCnt
    · rcases ch.method_cases hi hne with hm | hm
      · rw [threadStep_hosted (by simp [hm])]
        simp only [threadStep, hm]
        rw [view_processThread hne, hv, ← view_processThread hne]
      · rw [threadStep_hosted (by simp [hm])]
        simp only [threadStep, hm]
        rw [view_finalizationThread hne, hv, ← view_finalizationThread hne]
    · have hnone : cfg.method i = none := by
        rw [Config.method, List.getElem?_eq_none (Nat.le_of_not_lt hi)]
        rfl
      rw [threadStep_hosted (by simp [hnone])]
      simp only [threadStep, hnone]
      rfl
  | child i =>
    show (pipelineProcess cfg s i).map _ = (pipelineProcess cfg t i).map _
    rw [view_pipelineProcess ha, hv, ← view_pipelineProcess ha]
  | write i d =>
    show (actionWrite cfg s i d).map _ = (actionWrite cfg t i d).map _
    rw [view_actionWrite ha, hv, ← view_actionWrite ha]
  | ret i status =>
    show (actionReturn cfg s i status).map _ = (actionReturn cfg t i status).map _
    rw [view_actionReturn ha, hv, ← view_actionReturn ha]
  | main =>
    show (pipelineThread cfg s).map _ = (pipelineThread cfg.hosted t).map _
    rw [pipelineThread_hosted, view_pipelineThread rfl Pc.host_returned, hv,
      ← view_pipelineThread (f := id) rfl fun _ => Iff.rfl]
  | destroy =>
    show (pipelineDestroy s).map _ = (pipelineDestroy t).map _
    rw [view_pipelineDestroy, hv, ← view_pipelineDestroy]
  | raise =>
    have hexit := congrArg (fun u : State => { u with exitFlag := true }) hv
    exact congrArg some hexit

/-- The other parties leave the head alone, or create its thread. -/
theorem Label.other_frame (ch : InitialChain cfg) (ha : a.other ch.hosted.head)
    (hs : step cfg s a = some s') : s'.child ch.hosted.head = s.child ch.hosted.head ∧
      (s'.thr ch.hosted.head = s.thr ch.hosted.head ∨ (s'.thr ch.hosted.head).pc = .start) := by
  cases a with
  | thread i =>
    have hmove := ch.other_move ha hs
    exact ⟨hmove.child_of_ne (Ne.symm ha), .inl (hmove.thr_of_ne (Ne.symm ha))⟩
  | child i =>
    have hmove := pipelineProcess_move hs
    exact ⟨hmove.child_of_ne (Ne.symm ha), .inl (congrFun hmove.thr _)⟩
  | write i d =>
    have hmove := actionWrite_move hs
    exact ⟨hmove.child_of_ne (Ne.symm ha), .inl (congrFun hmove.thr _)⟩
  | ret i status =>
    have hmove := actionReturn_move hs
    exact ⟨hmove.child_of_ne (Ne.symm ha), .inl (congrFun hmove.thr _)⟩
  | main =>
    have hmove := pipelineThread_move hs
    refine ⟨congrFun hmove.child _, ?_⟩
    rcases hmove.create_or with ⟨k, -, -, rfl⟩ | ⟨hthr, -⟩
    · by_cases hk : ch.hosted.head = k
      · exact .inr (by simp [createModule, hk])
      · exact .inl (Function.update_of_ne hk ..)
    · exact .inl (congrFun hthr _)
  | destroy => cases pipelineDestroy_move hs <;> exact ⟨rfl, .inl rfl⟩
  | raise =>
    cases hs
    exact ⟨rfl, .inl rfl⟩

/-- The statements that the head has in common with its host. -/
theorem initialThread_shared (hpc : (s.thr h).pc.shared = true)
    (hs : initialThread cfg s h = some s') :
    s'.child = s.child ∧ (s'.thr h).pc.initial = true := by
  unfold initialThread at hs
  split at hs
  all_goals rename_i hcase
  case h_1 =>
    unfold startInternal at hs
    split at hs <;> cases hs <;> exact ⟨rfl, by simp [Pc.initial, Pc.shared]⟩
  case h_3 | h_4 =>
    cases hs
    refine ⟨rfl, ?_⟩
    simp only [State.goto, Function.update_self]
    split <;> rfl
  case h_6 =>
    unfold ringWait at hs
    split at hs <;> cases hs
    exact ⟨rfl, by simp [Pc.initial, Pc.shared]⟩
  case h_11 | h_15 =>
    obtain ⟨j, -, hs⟩ := Option.bind_eq_some_iff.mp hs
    split at hs <;> cases hs
    exact ⟨rfl, by simp [Pc.initial, Pc.shared]⟩
  case h_12 | h_13 | h_14 | h_16 | h_17 =>
    obtain ⟨j, -, rfl⟩ := Option.map_eq_some_iff.mp hs
    exact ⟨rfl, by simp [Pc.initial, Pc.shared]⟩
  case h_8 | h_9 | h_10 | h_18 | h_19 | h_20 | h_21 => simp [hcase, Pc.shared] at hpc
  case h_23 => cases hs
  all_goals
    cases hs
    exact ⟨rfl, by simp [Pc.initial, Pc.shared]⟩

/-- No child stores -1, and the head does not wait for an answer: when it comes to its test, the
next module is one of the first two that were started, or has been joined. -/
def unanswered (cfg : Config) (h : ℕ) (s : State) (a : Label) : Prop :=
  noMinusOne s a ∧ (a = .thread h → (s.thr h).pc = .checkNextIdx →
    ∀ j ∈ cfg.next h, s.idx j ≤ 1)

instance (cfg : Config) (h : ℕ) (s : State) (a : Label) : Decidable (unanswered cfg h s a) :=
  inferInstanceAs (Decidable (_ ∧ (_ → _ → _)))

theorem Hosts.head_shared (ch : InitialChain cfg) (hid : cfg.processStart ch.hosted.head ≠ none)
    (hh : Hosts ch.hosted.head s t) (hpc : (s.thr ch.hosted.head).pc.shared = true)
    (hs : initialThread cfg s ch.hosted.head = some s') :
    ∃ t', (sys cfg.hosted).Steps noMinusOne t t' ∧ Hosts ch.hosted.head s' t' := by
  have hshared : (t.thr ch.hosted.head).pc.shared = true := by
    rw [hh.thr, Pc.host_shared hpc]
    exact hpc
  have hview := view_initialThread hid hpc
  rw [hh.view_eq, ← view_sourceThread hshared, hs] at hview
  obtain ⟨t', ht', hview'⟩ := Option.map_eq_some_iff.mp hview.symm
  obtain ⟨hchild, hinitial⟩ := initialThread_shared hpc hs
  refine ⟨t', .single ⟨.thread ch.hosted.head, by simp [noMinusOne], ?_⟩, hview'.symm, ?_, hinitial⟩
  · rw [Pipeline.head_step, sourceThread_hosted]
    exact ht'
  · rw [hchild]
    exact hh.absent

/-- A step of the head is one of the host, or none, or an exchange of the host with its child. -/
theorem Hosts.head_step (ch : InitialChain cfg) (hid : cfg.processStart ch.hosted.head ≠ none)
    (hh : Hosts ch.hosted.head s t) (hr : (sys cfg.hosted).Reach noMinusOne t)
    (hok : (s.thr ch.hosted.head).pc = .checkNextIdx →
      ∀ j ∈ cfg.next ch.hosted.head, s.idx j ≤ 1)
    (hs : threadStep cfg s ch.hosted.head = some s') :
    ∃ t', (sys cfg.hosted).Steps noMinusOne t t' ∧ Hosts ch.hosted.head s' t' := by
  simp only [threadStep, ch.method_head] at hs
  by_cases hpc : (s.thr ch.hosted.head).pc.shared = true
  · exact hh.head_shared ch hid hpc hs
  · have hthr := hh.thr
    have hinitial := hh.initial
    cases hcase : (s.thr ch.hosted.head).pc <;>
      simp only [hcase, Pc.initial, Pc.shared, Bool.false_eq_true, not_true_eq_false] at hinitial hpc
    case writeTest | setCmd =>
      -- the host waits with its exchange
      simp only [initialThread, hcase] at hs
      cases hs
      refine ⟨t, .refl, ?_, hh.absent, by simp [Pc.initial]⟩
      rw [← hh.view_eq]
      simp [State.view, hcase, Pc.host]
    case setOffs =>
      obtain ⟨t', ht', hview⟩ := exchange_job ch.hosted hr (by rw [hthr, hcase]; rfl)
      simp only [initialThread, hcase] at hs
      cases hs
      refine ⟨t', ht', ?_, hh.absent, by simp [Pc.initial, Pc.shared]⟩
      rw [hview, view_goto (s := t) id, ← hh.view_eq]
      simp [State.view, Pc.host]
    case checkNextIdx =>
      obtain ⟨t', ht', hview⟩ := exchange_stop ch.hosted hr (by rw [hthr, hcase]; rfl)
      simp only [initialThread, hcase] at hs
      obtain ⟨j, hj, rfl⟩ := Option.map_eq_some_iff.mp hs
      rw [if_neg (Int.not_lt.mpr (hok hcase j hj))]
      refine ⟨t', ht', ?_, hh.absent, by simp [Pc.initial, Pc.shared]⟩
      rw [hview, view_goto (s := t) id, ← hh.view_eq]
      simp [State.view, Pc.host]

/-- A step with an internal head is some steps of the host. -/
theorem Hosts.step (ch : InitialChain cfg) (hid : cfg.processStart ch.hosted.head ≠ none)
    (hh : Hosts ch.hosted.head s t) (hr : (sys cfg.hosted).Reach noMinusOne t)
    (hok : unanswered cfg ch.hosted.head s a) (hs : step cfg s a = some s') :
    ∃ t', (sys cfg.hosted).Steps noMinusOne t t' ∧ Hosts ch.hosted.head s' t' := by
  by_cases ha : a.other ch.hosted.head
  · have hview := view_step ch ha hh.view_eq
    rw [hs] at hview
    obtain ⟨t', ht', hview'⟩ := Option.map_eq_some_iff.mp hview.symm
    obtain ⟨hchild, hthr⟩ := Label.other_frame ch ha hs
    refine ⟨t', .single ⟨a, hok.1, ht'⟩, hview'.symm, ?_, ?_⟩
    · rw [hchild]
      exact hh.absent
    · rcases hthr with hthr | hthr <;> rw [hthr]
      · exact hh.initial
      · rfl
  · cases a with
    | thread i =>
      obtain rfl : i = ch.hosted.head := not_not.mp ha
      exact hh.head_step ch hid hr (hok.2 rfl) hs
    | child i | write i d | ret i status =>
      -- there is no such child
      obtain rfl : i = ch.hosted.head := not_not.mp ha
      simp [Pipeline.step, pipelineProcess, actionWrite, actionReturn, hh.absent] at hs
    | main | destroy | raise => exact absurd trivial ha

/-- The head moves if its host does: what it does not have in common never waits. -/
theorem Hosts.head_enabled (ch : InitialChain cfg) (hid : cfg.processStart ch.hosted.head ≠ none)
    (hh : Hosts ch.hosted.head s t) (ht : sourceThread cfg t ch.hosted.head ≠ none) :
    threadStep cfg s ch.hosted.head ≠ none := by
  simp only [threadStep, ch.method_head]
  by_cases hpc : (s.thr ch.hosted.head).pc.shared = true
  · have hshared : (t.thr ch.hosted.head).pc.shared = true := by
      rw [hh.thr, Pc.host_shared hpc]
      exact hpc
    have hview := view_initialThread hid hpc
    rw [hh.view_eq, ← view_sourceThread hshared] at hview
    intro hs
    rw [hs] at hview
    exact ht (Option.map_eq_none_iff.mp hview.symm)
  · have hinitial := hh.initial
    have hnext : cfg.next ch.hosted.head ≠ none := by
      intro hn
      rw [← hosted_next, ch.hosted.next_none_iff ch.hosted.head_lt, ch.hosted.method_head] at hn
      cases hn
    cases hcase : (s.thr ch.hosted.head).pc <;>
      simp_all [Pc.initial, Pc.shared, initialThread, writeTest, setCmd, setOffs]

theorem Pc.host_idle {pc : Pc} (h : pc.initial = true) : pc.host.jobPhase = .idle := by
  cases pc <;> first | rfl | cases h

theorem Hosts.child_idle (ch : InitialChain cfg) (hh : Hosts ch.hosted.head s t)
    (hr : (sys cfg.hosted).Reach noMinusOne t) :
    (t.proc ch.hosted.head).semJob = 0 ∧ (t.child ch.hosted.head).pc.busy = 0 := by
  have htok := ((reach_inv ch.hosted hr).job ch.hosted.head).tokens
  have hidle : (t.thr ch.hosted.head).pc.jobPhase = .idle := by
    rw [hh.thr]
    exact Pc.host_idle hh.initial
  rw [hidle] at htok
  simp only [JobPhase.waiting] at htok
  omega

theorem Hosts.enabled (ch : InitialChain cfg) (hid : cfg.processStart ch.hosted.head ≠ none)
    (hh : Hosts ch.hosted.head s t) (hr : (sys cfg.hosted).Reach noMinusOne t)
    (he : (sys cfg.hosted).Enabled moduleStep t) : (sys cfg).Enabled moduleStep s := by
  obtain ⟨t', a, ha, ht'⟩ := he
  by_cases hother : a.other ch.hosted.head
  · have hview := view_step ch hother hh.view_eq
    rw [show Pipeline.step cfg.hosted t a = some t' from ht'] at hview
    obtain ⟨s', hs', -⟩ := Option.map_eq_some_iff.mp hview
    exact ⟨s', a, ha, hs'⟩
  · obtain ⟨hjob, hbusy⟩ := hh.child_idle ch hr
    obtain ⟨i, rfl | rfl | rfl⟩ := ha
    · obtain rfl : i = ch.hosted.head := not_not.mp hother
      rw [Pipeline.head_step, sourceThread_hosted] at ht'
      have hmoves := hh.head_enabled ch hid (by simp [ht'])
      obtain ⟨s', hs'⟩ := Option.ne_none_iff_exists'.mp hmoves
      exact ⟨s', .thread ch.hosted.head, ⟨_, .inl rfl⟩, hs'⟩
    · obtain rfl : i = ch.hosted.head := not_not.mp hother
      cases hpc : (t.child ch.hosted.head).pc <;>
        simp_all [sys, Pipeline.step, pipelineProcess, ChildPc.busy]
    · obtain rfl : i = ch.hosted.head := not_not.mp hother
      cases hpc : (t.child ch.hosted.head).pc <;>
        simp_all [sys, Pipeline.step, actionReturn, ChildPc.busy]

end Simulation

/-! ### The shutdown -/

section Shutdown

variable {cfg : Config} {s : State}

theorem internalHead_dataSize : 0 < (⟨3, 64, 2, 4⟩ : MemoryMap).dataSize := by decide

/-- A pipeline with an internal head, over two slots of four bytes. -/
def internalHead (modules : List ModuleDescription) : Config where
  modules := modules
  map := ⟨3, 64, 2, 4⟩
  dataSize_pos := internalHead_dataSize
  dataCnt_lt := two_lt_int
  processStart := some
  action _ := true

/-- Three modules in the order of their links. -/
def inOrder : Config :=
  internalHead [⟨1, .first, .internal, 2⟩, ⟨2, .middle, .external, 3⟩, ⟨3, .last, .internal, -1⟩]

/-- The last module stands before the middle one in the list. -/
def middleLast : Config :=
  internalHead [⟨1, .first, .internal, 2⟩, ⟨3, .last, .internal, -1⟩, ⟨2, .middle, .external, 3⟩]

theorem mem_three {i a b : ℕ} (h : a = 1 ∧ b = 2 ∨ a = 2 ∧ b = 1) : i ∈ [0, a, b] ↔ i < 3 := by
  simp only [List.mem_cons, List.not_mem_nil, or_false]
  omega

theorem inOrder_nodup : [0, 1, 2].Nodup := by decide

theorem middleLast_nodup : [0, 2, 1].Nodup := by decide

theorem two_le_three : 2 ≤ 3 := by decide

def inOrder.chain : InitialChain inOrder where
  path := [0, 1, 2]
  nodup := inOrder_nodup
  mem_path := fun _ => mem_three (.inl ⟨rfl, rfl⟩)
  two_le := two_le_three
  next_eq p i h := by
    match p, h with
    | 0, h | 1, h | 2, h =>
      cases h
      rfl
  method_eq p i h := by
    match p, h with
    | 0, h | 1, h | 2, h =>
      cases h
      rfl

def middleLast.chain : InitialChain middleLast where
  path := [0, 2, 1]
  nodup := middleLast_nodup
  mem_path := fun _ => mem_three (.inr ⟨rfl, rfl⟩)
  two_le := two_le_three
  next_eq p i h := by
    match p, h with
    | 0, h | 1, h | 2, h =>
      cases h
      rfl
  method_eq p i h := by
    match p, h with
    | 0, h | 1, h | 2, h =>
      cases h
      rfl

end Shutdown

end TmkDcl.Pipeline
