import TmkDcl.Pipeline.System

/-!
# What one step can do

`ThreadMove` lists the effects of the statements of `source_thread`,
`process_thread` and `finalization_thread`, guards included, one constructor for
a kind of statement; `ChildMove`, `MainMove` and `DestroyMove` do the same for the
other parties. Every invariant is derived from `step_move` and never unfolds a
thread method.
-/

namespace TmkDcl.Pipeline

variable {cfg : Config} {s s' : State} {k : ℕ}

/-- The effects of the statements of the threads of a chain. -/
inductive ThreadMove (cfg : Config) (s : State) (k : ℕ) : State → Prop
  | startFork {id : ℕ} (hpc : (s.thr k).pc = .start) (hid : cfg.processStart k = some id)
      (hm : cfg.method k ≠ some .finalizationThread) :
      ThreadMove cfg s k { (s.goto k .startPost).setChild k ⟨.waitJob, -1, false⟩ with
        idx := Function.update s.idx k id }
  | startThread (hpc : (s.thr k).pc = .start) (hm : cfg.method k = some .finalizationThread)
      (id : ℤ) (hid : id = (cfg.processStart k).elim (-1) fun n => (n : ℤ)) :
      ThreadMove cfg s k { s.goto k .startPost with idx := Function.update s.idx k id }
  | startFail (hpc : (s.thr k).pc = .start) (hid : cfg.processStart k = none)
      (hm : cfg.method k ≠ some .finalizationThread) :
      ThreadMove cfg s k { s.goto k .failFlag with idx := Function.update s.idx k (-1) }
  | failFlag (hpc : (s.thr k).pc = .failFlag) :
      ThreadMove cfg s k { s.goto k .failPost with exitFlag := true }
  | failPost (hpc : (s.thr k).pc = .failPost) :
      ThreadMove cfg s k { s.goto k .failed with startControl := s.startControl + 1 }
  | startPost (hpc : (s.thr k).pc = .startPost) (pc : Pc)
      (hs : pc = if cfg.method k = some .sourceThread then .checkExit else .waitCmd) :
      ThreadMove cfg s k { s.goto k pc with startControl := s.startControl + 1 }
  | checkExit (hpc : (s.thr k).pc = .checkExit) (hm : cfg.method k = some .sourceThread) :
      ThreadMove cfg s k (s.goto k (if s.exitFlag then .stopWaitNext else .checkState))
  | checkState (hpc : (s.thr k).pc = .checkState) (hm : cfg.method k = some .sourceThread) :
      ThreadMove cfg s k (s.goto k (if s.st k = .live then .readOwnCmd else .checkExit))
  | readOwnCmd (hpc : (s.thr k).pc = .readOwnCmd) (hm : cfg.method k = some .sourceThread) :
      ThreadMove cfg s k { s with
        thr := Function.update s.thr k { s.thr k with pc := .popWait, cmd := (s.box k).cmd } }
  | popWait (hpc : (s.thr k).pc = .popWait) (hm : cfg.method k = some .sourceThread)
      (hr : 0 < s.ring.sem) :
      ThreadMove cfg s k
        { s.goto k .popTake with ring := { s.ring with sem := s.ring.sem - 1 } }
  | popTake (hpc : (s.thr k).pc = .popTake) (hm : cfg.method k = some .sourceThread) :
      ThreadMove cfg s k (State.emit { s with
        ring := (ringBufferPop s.ring).2,
        thr := Function.update s.thr k
          { s.thr k with pc := .setCmd, dataoffset := (ringBufferPop s.ring).1 } }
        (.pop k (ringBufferPop s.ring).1 (s.chunk (ringBufferPop s.ring).1)))
  | setCmd (hpc : (s.thr k).pc = .setCmd) :
      ThreadMove cfg s k ((s.goto k .setOffs).setProc k { s.proc k with cmd := (s.thr k).cmd })
  | setOffs (hpc : (s.thr k).pc = .setOffs) :
      ThreadMove cfg s k
        ((s.goto k .postJob).setProc k { s.proc k with cmdOffs := (s.thr k).dataoffset })
  | postJob (hpc : (s.thr k).pc = .postJob) :
      ThreadMove cfg s k (((s.goto k .waitResult).setProc k
        { s.proc k with semJob := (s.proc k).semJob + 1 }).emit
        (.ask k (s.proc k).cmd (s.proc k).cmdOffs))
  | sourceResult (hpc : (s.thr k).pc = .waitResult) (hm : cfg.method k = some .sourceThread)
      (hr : 0 < (s.proc k).semResult) :
      ThreadMove cfg s k ((((s.goto k .waitNext).setProc k
        { s.proc k with semResult := (s.proc k).semResult - 1 }).emit
        (.reply k (s.proc k).cmdResult)).emit (finishEvent s k))
  | processResult (hpc : (s.thr k).pc = .waitResult) (hm : cfg.method k = some .processThread)
      (hr : 0 < (s.proc k).semResult) :
      ThreadMove cfg s k (((s.goto k .readResult).setProc k
        { s.proc k with semResult := (s.proc k).semResult - 1 }).emit
        (.reply k (s.proc k).cmdResult))
  | readResult (hpc : (s.thr k).pc = .readResult) (hm : cfg.method k = some .processThread) :
      ThreadMove cfg s k ((s.goto k
        (if (s.proc k).cmdResult ≠ 0 then .push else .waitNext)).emit (finishEvent s k))
  | push (hpc : (s.thr k).pc = .push) (hin : s.ring.PushInside) :
      ThreadMove cfg s k
        { s.goto k .pushPost with ring := ringBufferPush s.ring (s.thr k).dataoffset }
  | pushPost (hpc : (s.thr k).pc = .pushPost) :
      ThreadMove cfg s k { s.goto k .waitCmd with ring := { s.ring with sem := s.ring.sem + 1 } }
  | waitNext {j : ℕ} (hpc : (s.thr k).pc = .waitNext) (hn : cfg.next k = some j)
      (hr : 0 < (s.box j).result) :
      ThreadMove cfg s k
        ((s.goto k .putCmd).setBox j { s.box j with result := (s.box j).result - 1 })
  | putCmd {j : ℕ} (hpc : (s.thr k).pc = .putCmd) (hn : cfg.next k = some j) :
      ThreadMove cfg s k ((s.goto k .putOffset).setBox j { s.box j with cmd := .job })
  | putOffset {j : ℕ} (hpc : (s.thr k).pc = .putOffset) (hn : cfg.next k = some j) :
      ThreadMove cfg s k
        ((s.goto k .postNext).setBox j { s.box j with dataoffset := (s.thr k).dataoffset })
  | postNext {j : ℕ} (hpc : (s.thr k).pc = .postNext) (hn : cfg.next k = some j) (pc : Pc)
      (hs : pc = if cfg.method k = some .sourceThread then .checkExit else .waitCmd) :
      ThreadMove cfg s k (((s.goto k pc).setBox j
        { s.box j with newCmd := (s.box j).newCmd + 1 }).emit (.mail j ((s.box j).letter s.chunk)))
  | stopWaitNext {j : ℕ} (hpc : (s.thr k).pc = .stopWaitNext) (hn : cfg.next k = some j)
      (hr : 0 < (s.box j).result) :
      ThreadMove cfg s k
        ((s.goto k .stopPutCmd).setBox j { s.box j with result := (s.box j).result - 1 })
  | stopPutCmd {j : ℕ} (hpc : (s.thr k).pc = .stopPutCmd) (hn : cfg.next k = some j) :
      ThreadMove cfg s k ((s.goto k .stopPostNext).setBox j { s.box j with cmd := .stop })
  | stopPostNext {j : ℕ} (hpc : (s.thr k).pc = .stopPostNext) (hn : cfg.next k = some j) :
      ThreadMove cfg s k (((s.goto k .stopSetCmd).setBox j
        { s.box j with newCmd := (s.box j).newCmd + 1 }).emit (.mail j ((s.box j).letter s.chunk)))
  | stopSetCmd (hpc : (s.thr k).pc = .stopSetCmd) :
      ThreadMove cfg s k ((s.goto k .stopPostJob).setProc k { s.proc k with cmd := .stop })
  | stopPostJob (hpc : (s.thr k).pc = .stopPostJob) :
      ThreadMove cfg s k (((s.goto k .stopWaitResult).setProc k
        { s.proc k with semJob := (s.proc k).semJob + 1 }).emit
        (.ask k (s.proc k).cmd (s.proc k).cmdOffs))
  | stopWaitResult (hpc : (s.thr k).pc = .stopWaitResult) (pc : Pc)
      (hs : pc = if cfg.method k = some .sourceThread then .setInit else .done)
      (hr : 0 < (s.proc k).semResult) :
      ThreadMove cfg s k (((s.goto k pc).setProc k
        { s.proc k with semResult := (s.proc k).semResult - 1 }).emit
        (.reply k (s.proc k).cmdResult))
  | setInit (hpc : (s.thr k).pc = .setInit) :
      ThreadMove cfg s k { s.goto k .done with
        st := Function.update s.st k (pipelineModuleSetState .init (s.st k)) }
  | waitCmd (hpc : (s.thr k).pc = .waitCmd) (hm : cfg.method k ≠ some .sourceThread)
      (hr : 0 < (s.box k).newCmd) :
      ThreadMove cfg s k
        ((s.goto k .readCmd).setBox k { s.box k with newCmd := (s.box k).newCmd - 1 })
  | readCmd (hpc : (s.thr k).pc = .readCmd) (hm : cfg.method k ≠ some .sourceThread) :
      ThreadMove cfg s k { s with
        thr := Function.update s.thr k { s.thr k with pc := .readOffset, cmd := (s.box k).cmd } }
  | readOffset (hpc : (s.thr k).pc = .readOffset) (hm : cfg.method k ≠ some .sourceThread)
      (m : Msg) (hmsg : m = match (s.thr k).cmd with
        | .stop => .stop
        | .job => .job (s.box k).dataoffset (s.chunk (s.box k).dataoffset)) :
      ThreadMove cfg s k (State.emit { s with
        thr := Function.update s.thr k
          { s.thr k with pc := .postResult, dataoffset := (s.box k).dataoffset } }
        (.take k m))
  | postStop (hpc : (s.thr k).pc = .postResult) (hm : cfg.method k ≠ some .sourceThread)
      (hc : (s.thr k).cmd = .stop) (pc : Pc)
      (hs : pc = if cfg.method k = some .finalizationThread then .setInit else .stopWaitNext) :
      ThreadMove cfg s k
        ((s.goto k pc).setBox k { s.box k with result := (s.box k).result + 1 })
  | postTaken (hpc : (s.thr k).pc = .postResult) (hm : cfg.method k ≠ some .sourceThread)
      (hc : (s.thr k).cmd = .job) (pc : Pc)
      (hs : pc = if cfg.method k = some .finalizationThread then .clean else .setCmd) :
      ThreadMove cfg s k
        ((s.goto k pc).setBox k { s.box k with result := (s.box k).result + 1 })
  | clean (hpc : (s.thr k).pc = .clean) (hm : cfg.method k = some .finalizationThread) :
      ThreadMove cfg s k ((s.goto k .push).setChunk (s.thr k).dataoffset
        ((s.chunk (s.thr k).dataoffset).set 0 0))

theorem sourceThread_move (hm : cfg.method k = some .sourceThread)
    (h : sourceThread cfg s k = some s') : ThreadMove cfg s k s' := by
  unfold sourceThread at h
  split at h
  all_goals rename_i hpc
  · unfold startExternal at h
    split at h <;> cases h
    · exact .startFork hpc (by assumption) (by simp [hm])
    · exact .startFail hpc (by assumption) (by simp [hm])
  · cases h; exact .failFlag hpc
  · cases h; exact .failPost hpc
  · cases h; exact .startPost hpc _ (by simp [hm])
  · cases h; exact .checkExit hpc hm
  · cases h; exact .checkState hpc hm
  · cases h; exact .readOwnCmd hpc hm
  · unfold ringWait at h
    split at h <;> cases h
    exact .popWait hpc hm (by assumption)
  · cases h; exact .popTake hpc hm
  · cases h; exact .setCmd hpc
  · cases h; exact .setOffs hpc
  · cases h; exact .postJob hpc
  · unfold waitResult at h
    split at h <;> cases h
    exact .sourceResult hpc hm (by assumption)
  · obtain ⟨j, hj, h⟩ := Option.bind_eq_some_iff.mp h
    split at h <;> cases h
    exact .waitNext hpc hj (by assumption)
  · obtain ⟨j, hj, rfl⟩ := Option.map_eq_some_iff.mp h
    exact .putCmd hpc hj
  · obtain ⟨j, hj, rfl⟩ := Option.map_eq_some_iff.mp h
    exact .putOffset hpc hj
  · obtain ⟨j, hj, rfl⟩ := Option.map_eq_some_iff.mp h
    exact .postNext hpc hj _ (by simp [hm])
  · obtain ⟨j, hj, h⟩ := Option.bind_eq_some_iff.mp h
    split at h <;> cases h
    exact .stopWaitNext hpc hj (by assumption)
  · obtain ⟨j, hj, rfl⟩ := Option.map_eq_some_iff.mp h
    exact .stopPutCmd hpc hj
  · obtain ⟨j, hj, rfl⟩ := Option.map_eq_some_iff.mp h
    exact .stopPostNext hpc hj
  · cases h; exact .stopSetCmd hpc
  · cases h; exact .stopPostJob hpc
  · unfold waitResult at h
    split at h <;> cases h
    exact .stopWaitResult hpc _ (by simp [hm]) (by assumption)
  · cases h; exact .setInit hpc
  · cases h

theorem processThread_move (hm : cfg.method k = some .processThread)
    (h : processThread cfg s k = some s') : ThreadMove cfg s k s' := by
  unfold processThread at h
  split at h
  all_goals rename_i hpc
  · unfold startExternal at h
    split at h <;> cases h
    · exact .startFork hpc (by assumption) (by simp [hm])
    · exact .startFail hpc (by assumption) (by simp [hm])
  · cases h; exact .failFlag hpc
  · cases h; exact .failPost hpc
  · cases h; exact .startPost hpc _ (by simp [hm])
  · unfold waitCmd at h
    split at h <;> cases h
    exact .waitCmd hpc (by simp [hm]) (by assumption)
  · cases h; exact .readCmd hpc (by simp [hm])
  · cases h; exact .readOffset hpc (by simp [hm]) _ rfl
  · unfold postResult at h
    cases hc : (s.thr k).cmd <;> simp only [hc] at h <;> cases h
    · exact .postStop hpc (by simp [hm]) hc _ (by simp [hm])
    · exact .postTaken hpc (by simp [hm]) hc _ (by simp [hm])
  · cases h; exact .setCmd hpc
  · cases h; exact .setOffs hpc
  · cases h; exact .postJob hpc
  · unfold waitResult at h
    split at h <;> cases h
    exact .processResult hpc hm (by assumption)
  · cases h; exact .readResult hpc hm
  · unfold ringPut at h
    split at h <;> cases h
    exact .push hpc (by assumption)
  · cases h; exact .pushPost hpc
  · obtain ⟨j, hj, h⟩ := Option.bind_eq_some_iff.mp h
    split at h <;> cases h
    exact .waitNext hpc hj (by assumption)
  · obtain ⟨j, hj, rfl⟩ := Option.map_eq_some_iff.mp h
    exact .putCmd hpc hj
  · obtain ⟨j, hj, rfl⟩ := Option.map_eq_some_iff.mp h
    exact .putOffset hpc hj
  · obtain ⟨j, hj, rfl⟩ := Option.map_eq_some_iff.mp h
    exact .postNext hpc hj _ (by simp [hm])
  · obtain ⟨j, hj, h⟩ := Option.bind_eq_some_iff.mp h
    split at h <;> cases h
    exact .stopWaitNext hpc hj (by assumption)
  · obtain ⟨j, hj, rfl⟩ := Option.map_eq_some_iff.mp h
    exact .stopPutCmd hpc hj
  · obtain ⟨j, hj, rfl⟩ := Option.map_eq_some_iff.mp h
    exact .stopPostNext hpc hj
  · cases h; exact .stopSetCmd hpc
  · cases h; exact .stopPostJob hpc
  · unfold waitResult at h
    split at h <;> cases h
    exact .stopWaitResult hpc _ (by simp [hm]) (by assumption)
  · cases h

theorem finalizationThread_move (hm : cfg.method k = some .finalizationThread)
    (h : finalizationThread cfg s k = some s') : ThreadMove cfg s k s' := by
  unfold finalizationThread at h
  split at h
  all_goals rename_i hpc
  · unfold startInternal at h
    split at h <;> cases h
    all_goals exact .startThread hpc hm _ (by simp [*])
  · cases h; exact .startPost hpc _ (by simp [hm])
  · unfold waitCmd at h
    split at h <;> cases h
    exact .waitCmd hpc (by simp [hm]) (by assumption)
  · cases h; exact .readCmd hpc (by simp [hm])
  · cases h; exact .readOffset hpc (by simp [hm]) _ rfl
  · unfold postResult at h
    cases hc : (s.thr k).cmd <;> simp only [hc] at h <;> cases h
    · exact .postStop hpc (by simp [hm]) hc _ (by simp [hm])
    · exact .postTaken hpc (by simp [hm]) hc _ (by simp [hm])
  · cases h; exact .clean hpc hm
  · unfold ringPut at h
    split at h <;> cases h
    exact .push hpc (by assumption)
  · cases h; exact .pushPost hpc
  · cases h; exact .setInit hpc
  · cases h

theorem lt_of_method {m : ThreadMethod} (h : cfg.method k = some m) : k < cfg.modulesCnt := by
  obtain ⟨mdesc, hd, _⟩ := Option.bind_eq_some_iff.mp h
  exact (List.getElem?_eq_some_iff.mp hd).1

theorem threadStep_lt (h : threadStep cfg s k = some s') : k < cfg.modulesCnt := by
  cases hm : cfg.method k with
  | none => simp [threadStep, hm] at h
  | some m => exact lt_of_method hm

/-- The inversion rule for the threads of a chain. -/
theorem threadStep_move (ch : Chain cfg) (h : threadStep cfg s k = some s') :
    ThreadMove cfg s k s' := by
  unfold threadStep at h
  rcases ch.method_cases (threadStep_lt h) with hm | hm | hm
  · exact sourceThread_move hm (by simpa only [hm] using h)
  · exact processThread_move hm (by simpa only [hm] using h)
  · exact finalizationThread_move hm (by simpa only [hm] using h)

/-! ### The other parties -/

/-- The effects of the statements of the child of module `i`, by label. -/
inductive ChildMove (cfg : Config) (s : State) (i : ℕ) : Label → State → Prop
  | waitJob (hpc : (s.child i).pc = .waitJob) (hr : 0 < (s.proc i).semJob) :
      ChildMove cfg s i (.child i) ((s.setChild i { s.child i with pc := .readCmd }).setProc i
        { s.proc i with semJob := (s.proc i).semJob - 1 })
  | readStop (hpc : (s.child i).pc = .readCmd) (hc : (s.proc i).cmd = .stop) :
      ChildMove cfg s i (.child i) (((s.setChild i { s.child i with pc := .post true }).setProc i
        { s.proc i with cmdResult := 0 }).emit (.answer i .stop (s.proc i).cmdOffs 0))
  | readJob (hpc : (s.child i).pc = .readCmd) (hc : (s.proc i).cmd = .job) :
      ChildMove cfg s i (.child i) (s.setChild i { s.child i with pc := .action, wrote := false })
  | noAction (hpc : (s.child i).pc = .action) (ha : cfg.action i = false) :
      ChildMove cfg s i (.child i) (((s.setChild i { s.child i with pc := .post false }).setProc i
        { s.proc i with cmdResult := 0 }).emit (.answer i .job (s.proc i).cmdOffs 0))
  | post (exitFlag : Bool) (hpc : (s.child i).pc = .post exitFlag) :
      ChildMove cfg s i (.child i)
        ((s.setChild i { s.child i with pc := if exitFlag then .gone else .waitJob }).setProc i
          { s.proc i with semResult := (s.proc i).semResult + 1 })
  | write (d : Chunk) (hpc : (s.child i).pc = .action) (ha : cfg.action i = true)
      (hd : d.length = cfg.map.dataSize) :
      ChildMove cfg s i (.write i d)
        ((s.setChild i { s.child i with wrote := true }).setChunk (s.proc i).cmdOffs d)
  | ret (status result : ℤ) (hpc : (s.child i).pc = .action) (ha : cfg.action i = true)
      (hres : result = if status = -1 then 0 else status) :
      ChildMove cfg s i (.ret i status) (((s.setChild i { s.child i with
          pc := .post (decide (status = -1)), status := result }).setProc i
        { s.proc i with cmdResult := result }).emit (.answer i .job (s.proc i).cmdOffs result))

/-- The effects of the statements of `pipeline_thread`. -/
inductive MainMove (cfg : Config) (s : State) : State → Prop
  | create {k : ℕ} (hm : s.main = .startNext k) (hk : k < cfg.modulesCnt) :
      MainMove cfg s { createModule s k with main := .waitStart k }
  | allStarted {k : ℕ} (hm : s.main = .startNext k) (hk : cfg.modulesCnt ≤ k) :
      MainMove cfg s { s with main := .decide }
  | waitStart {k : ℕ} (hm : s.main = .waitStart k) (hc : 0 < s.startControl) :
      MainMove cfg s { s with startControl := s.startControl - 1, main := .checkIdx k }
  | failed {k : ℕ} (hm : s.main = .checkIdx k) (hi : s.idx k = -1) :
      MainMove cfg s { s with main := .joinFailed k }
  | started {k : ℕ} (hm : s.main = .checkIdx k) (hi : s.idx k ≠ -1) :
      MainMove cfg s { s with
        st := Function.update s.st k (pipelineModuleSetState .init (s.st k))
        realStarted := s.realStarted + 1
        main := .startNext (k + 1) }
  | joinFailed {k : ℕ} (hm : s.main = .joinFailed k) (hr : (s.thr k).pc.returned) :
      MainMove cfg s { s with
        st := Function.update s.st k (pipelineModuleSetState .error (s.st k))
        plState := .error
        main := .decide }
  | decide (hm : s.main = .decide) :
      MainMove cfg s
        { s with plState := if 2 ≤ s.realStarted then .init else .error, main := .checkLive }
  | checkLive (hm : s.main = .checkLive) :
      MainMove cfg s { s with main := if s.plState = .init then .setLive 0 else .join 0 }
  | setLive {k : ℕ} (hm : s.main = .setLive k) (hk : k < cfg.modulesCnt) :
      MainMove cfg s { s with
        st := Function.update s.st k (pipelineModuleSetState .live (s.st k))
        main := .setLive (k + 1) }
  | live {k : ℕ} (hm : s.main = .setLive k) (hk : cfg.modulesCnt ≤ k) :
      MainMove cfg s { s with plState := .live, main := .join 0 }
  | join {k : ℕ} (hm : s.main = .join k) (hk : k < cfg.modulesCnt)
      (hr : s.idx k = -1 ∨ (s.thr k).pc.returned) :
      MainMove cfg s { s with
        idx := Function.update s.idx k (-250)
        st := Function.update s.st k .unknown
        main := .join (k + 1) }
  | allJoined {k : ℕ} (hm : s.main = .join k) (hk : cfg.modulesCnt ≤ k) :
      MainMove cfg s { s with main := .finish }
  | finish (hm : s.main = .finish) : MainMove cfg s { s with main := .returned }

/-- The effects of the statements of `pipeline_destroy`. -/
inductive DestroyMove (s : State) : State → Prop
  | call (hd : s.destroyer = .idle) : DestroyMove s { s with destroyer := .join }
  | join (hd : s.destroyer = .join) (hm : s.main = .returned) :
      DestroyMove s { s with destroyer := .cleanup }
  | cleanup (hd : s.destroyer = .cleanup) :
      DestroyMove s { s with
        st := fun k => pipelineModuleSetState .unknown (s.st k)
        plState := .unknown
        exitFlag := true
        destroyer := .returned }

theorem pipelineProcess_move (h : pipelineProcess cfg s k = some s') :
    ChildMove cfg s k (.child k) s' := by
  dsimp only [pipelineProcess] at h
  split at h
  · rename_i hpc
    split at h <;> cases h
    exact .waitJob hpc (by assumption)
  · rename_i hpc
    split at h <;> cases h
    · exact .readStop hpc (by assumption)
    · exact .readJob hpc (by assumption)
  · rename_i hpc
    split at h <;> cases h
    exact .noAction hpc (by simpa using ‹¬ cfg.action k = true›)
  · rename_i hpc
    cases h
    exact .post _ hpc
  · cases h

theorem actionWrite_move {d : Chunk} (h : actionWrite cfg s k d = some s') :
    ChildMove cfg s k (.write k d) s' := by
  unfold actionWrite at h
  split at h <;> cases h
  obtain ⟨ha, hpc, hd⟩ := ‹_ ∧ _›
  exact .write d hpc ha hd

theorem actionReturn_move {status : ℤ} (h : actionReturn cfg s k status = some s') :
    ChildMove cfg s k (.ret k status) s' := by
  unfold actionReturn at h
  split at h <;> cases h
  obtain ⟨ha, hpc⟩ := ‹_ ∧ _›
  exact .ret status _ hpc ha rfl

theorem pipelineThread_move (h : pipelineThread cfg s = some s') : MainMove cfg s s' := by
  unfold pipelineThread at h
  split at h
  all_goals rename_i hm
  · split at h <;> cases h
    · exact .create hm (by assumption)
    · exact .allStarted hm (by omega)
  · split at h <;> cases h
    exact .waitStart hm (by assumption)
  · split at h <;> cases h
    · exact .failed hm (by assumption)
    · exact .started hm (by assumption)
  · split at h <;> cases h
    exact .joinFailed hm (by assumption)
  · cases h
    exact .decide hm
  · cases h
    exact .checkLive hm
  · split at h <;> cases h
    · exact .setLive hm (by assumption)
    · exact .live hm (by omega)
  · split at h
    · split at h <;> cases h
      exact .join hm (by assumption) (by assumption)
    · cases h
      exact .allJoined hm (by omega)
  · cases h
    exact .finish hm
  · cases h

theorem pipelineDestroy_move (h : pipelineDestroy s = some s') : DestroyMove s s' := by
  unfold pipelineDestroy at h
  split at h
  all_goals rename_i hd
  · cases h
    exact .call hd
  · split at h <;> cases h
    exact .join hd (by assumption)
  · cases h
    exact .cleanup hd
  · cases h

/-- The effects of the steps of a chain, by label. -/
inductive Move (cfg : Config) (s : State) : Label → State → Prop
  | thread {k : ℕ} {s' : State} (hk : k < cfg.modulesCnt) (h : ThreadMove cfg s k s') :
      Move cfg s (.thread k) s'
  | child {k : ℕ} {a : Label} {s' : State} (h : ChildMove cfg s k a s') : Move cfg s a s'
  | main {s' : State} (h : MainMove cfg s s') : Move cfg s .main s'
  | destroy {s' : State} (h : DestroyMove s s') : Move cfg s .destroy s'
  | raise : Move cfg s .raise { s with exitFlag := true }

/-- The inversion rule for the steps of a chain. -/
theorem step_move (ch : Chain cfg) {a : Label} (h : step cfg s a = some s') :
    Move cfg s a s' := by
  cases a with
  | thread k => exact .thread (threadStep_lt h) (threadStep_move ch h)
  | child k => exact .child (pipelineProcess_move h)
  | write k d => exact .child (actionWrite_move h)
  | ret k status => exact .child (actionReturn_move h)
  | main => exact .main (pipelineThread_move h)
  | destroy => exact .destroy (pipelineDestroy_move h)
  | raise =>
    cases h
    exact .raise

/-! ### What a child and `pipeline_destroy` leave alone -/

section Frame

variable {i : ℕ} {a : Label}

theorem ChildMove.thr (h : ChildMove cfg s k a s') : s'.thr = s.thr := by cases h <;> rfl

theorem ChildMove.box (h : ChildMove cfg s k a s') : s'.box = s.box := by cases h <;> rfl

theorem ChildMove.ring (h : ChildMove cfg s k a s') : s'.ring = s.ring := by cases h <;> rfl

theorem ChildMove.main (h : ChildMove cfg s k a s') : s'.main = s.main := by cases h <;> rfl

theorem ChildMove.proc_of_ne (h : ChildMove cfg s k a s') (hi : i ≠ k) :
    s'.proc i = s.proc i := by
  cases h
  case readJob | write => rfl
  all_goals exact Function.update_of_ne hi ..

theorem ChildMove.child_of_ne (h : ChildMove cfg s k a s') (hi : i ≠ k) :
    s'.child i = s.child i := by
  cases h <;> exact Function.update_of_ne hi ..

theorem ChildMove.not_absent (h : ChildMove cfg s k a s') : (s'.child k).pc ≠ .absent := by
  cases h
  case post exitFlag _ => cases exitFlag <;> simp
  all_goals simp [*]

theorem ThreadMove.ne_uninit (h : ThreadMove cfg s k s') : (s.thr k).pc ≠ .uninit := by
  cases h <;> simp [*]

theorem ThreadMove.main (h : ThreadMove cfg s k s') : s'.main = s.main := by cases h <;> rfl

theorem MainMove.proc (h : MainMove cfg s s') : s'.proc = s.proc := by cases h <;> rfl

theorem MainMove.child (h : MainMove cfg s s') : s'.child = s.child := by cases h <;> rfl

theorem MainMove.ring (h : MainMove cfg s s') : s'.ring = s.ring := by cases h <;> rfl

end Frame

end TmkDcl.Pipeline
