import TmkDcl.Lts
import TmkDcl.Pipeline.Threads

/-!
# The pipeline as a step system (pipeline_client.c, pipeline_server.c)

The parties are the module threads, their children running `pipeline_process`,
`pipeline_thread`, a caller of `pipeline_destroy`, and the surroundings, which
may set the exit flag. `pipeline_thread` starts the modules in list order,
switches them to `MD_STATE_LIVE` and joins them.
-/

namespace TmkDcl.Pipeline

/-! ### The children -/

/-- The statements of `pipeline_process` outside the action
(`pipeline_client.c:106-139`); without an action the result is 0. -/
def pipelineProcess (cfg : Config) (s : State) (i : ℕ) : Option State :=
  let p := s.proc i
  let c := s.child i
  match c.pc with
  | .waitJob =>
    if 0 < p.semJob then
      some ((s.setChild i { c with pc := .readCmd }).setProc i { p with semJob := p.semJob - 1 })
    else none
  | .readCmd =>
    match p.cmd with
    | .stop =>
      some (((s.setChild i { c with pc := .post true }).setProc i { p with cmdResult := 0 }).emit
        (.answer i .stop p.cmdOffs 0))
    | .job => some (s.setChild i { c with pc := .action, wrote := false })
  | .action =>
    if cfg.action i then none
    else some (((s.setChild i { c with pc := .post false }).setProc i
      { p with cmdResult := 0 }).emit (.answer i .job p.cmdOffs 0))
  | .post exitFlag =>
    some ((s.setChild i { c with pc := if exitFlag then .gone else .waitJob }).setProc i
      { p with semResult := p.semResult + 1 })
  | _ => none

/-- The action writes to the slot it is given. -/
def actionWrite (cfg : Config) (s : State) (i : ℕ) (d : Chunk) : Option State :=
  if cfg.action i ∧ (s.child i).pc = .action ∧ d.length = cfg.map.dataSize then
    some ((s.setChild i { s.child i with wrote := true }).setChunk (s.proc i).cmdOffs d)
  else none

/-- The action returns with `status` in `*status`; -1 makes the child leave
with the result 0 (`pipeline_client.c:126-133`). -/
def actionReturn (cfg : Config) (s : State) (i : ℕ) (status : ℤ) : Option State :=
  if cfg.action i ∧ (s.child i).pc = .action then
    let result := if status = -1 then 0 else status
    some (((s.setChild i { s.child i with
        pc := .post (decide (status = -1)), status := result }).setProc i
      { s.proc i with cmdResult := result }).emit (.answer i .job (s.proc i).cmdOffs result))
  else none

/-! ### `pipeline_thread` and `pipeline_destroy` -/

/-- `pipeline_module_init` and `pthread_create` (`pipeline_server.c:51-52`). -/
def createModule (s : State) (k : ℕ) : State :=
  { s with
    box := Function.update s.box k { s.box k with newCmd := 0, result := 1, cmd := .job }
    thr := Function.update s.thr k { s.thr k with pc := .start }
    idx := Function.update s.idx k (-200)
    st := Function.update s.st k .unknown }

/-- `pipeline_thread` from its start loop on (`pipeline_server.c:46-103`). -/
def pipelineThread (cfg : Config) (s : State) : Option State :=
  match s.main with
  | .startNext k =>
    if k < cfg.modulesCnt then some { createModule s k with main := .waitStart k }
    else some { s with main := .decide }
  | .waitStart k =>
    if 0 < s.startControl then
      some { s with startControl := s.startControl - 1, main := .checkIdx k }
    else none
  | .checkIdx k =>
    if s.idx k = -1 then some { s with main := .joinFailed k }
    else some { s with
      st := Function.update s.st k (pipelineModuleSetState .init (s.st k))
      realStarted := s.realStarted + 1
      main := .startNext (k + 1) }
  | .joinFailed k =>
    if (s.thr k).pc.returned then
      some { s with
        st := Function.update s.st k (pipelineModuleSetState .error (s.st k))
        plState := .error
        main := .decide }
    else none
  | .decide =>
    some { s with plState := if 2 ≤ s.realStarted then .init else .error, main := .checkLive }
  | .checkLive => some { s with main := if s.plState = .init then .setLive 0 else .join 0 }
  | .setLive k =>
    if k < cfg.modulesCnt then
      some { s with
        st := Function.update s.st k (pipelineModuleSetState .live (s.st k))
        main := .setLive (k + 1) }
    else some { s with plState := .live, main := .join 0 }
  | .join k =>
    if k < cfg.modulesCnt then
      if s.idx k = -1 ∨ (s.thr k).pc.returned then
        some { s with
          idx := Function.update s.idx k (-250)
          st := Function.update s.st k .unknown
          main := .join (k + 1) }
      else none
    else some { s with main := .finish }
  | .finish => some { s with main := .returned }
  | .returned => none

/-- `pipeline_destroy` (`pipeline_server.c:194-221`): it joins `pipeline_thread`
before it sets the exit flag. -/
def pipelineDestroy (s : State) : Option State :=
  match s.destroyer with
  | .idle => some { s with destroyer := .join }
  | .join => if s.main = .returned then some { s with destroyer := .cleanup } else none
  | .cleanup =>
    some { s with
      st := fun k => pipelineModuleSetState .unknown (s.st k)
      plState := .unknown
      exitFlag := true
      destroyer := .returned }
  | .returned => none

/-! ### The system -/

/-- Who takes a step. -/
inductive Label where
  | thread (i : ℕ)
  | child (i : ℕ)
  | write (i : ℕ) (d : Chunk)
  | ret (i : ℕ) (status : ℤ)
  | main
  | destroy
  /-- somebody outside sets `pl->exit_flag` -/
  | raise
  deriving DecidableEq, Repr

def step (cfg : Config) (s : State) : Label → Option State
  | .thread i => threadStep cfg s i
  | .child i => pipelineProcess cfg s i
  | .write i d => actionWrite cfg s i d
  | .ret i status => actionReturn cfg s i status
  | .main => pipelineThread cfg s
  | .destroy => pipelineDestroy s
  | .raise => some { s with exitFlag := true }

/-- The state in which `pipeline_thread` enters its start loop: the modules are
zeroed, the ring is full, the shared memory is fresh. -/
def initial (cfg : Config) : State where
  box _ := ⟨0, 0, .stop, 0⟩
  thr _ := ⟨.uninit, .stop, 0⟩
  idx _ := -1
  st _ := .init
  proc _ := ⟨0, 0, .stop, 0, 0⟩
  child _ := ⟨.absent, -1, false⟩
  ring := { ringBufferCreate cfg.map.dataCnt false with buffer := createdOffsets cfg.map }
  chunk _ := List.replicate cfg.map.dataSize 0
  exitFlag := false
  startControl := 0
  plState := .unknown
  realStarted := 0
  main := .startNext 0
  destroyer := .idle
  log := []

/-- The pipeline as a labelled step system. -/
def sys (cfg : Config) : Lts State Label where
  init s := s = initial cfg
  step := step cfg

/-- The steps that bring `n` modules to `MD_STATE_LIVE`, one module after the other. -/
def startLabels (n : ℕ) : List Label :=
  (List.range n).flatMap (fun k => [.main, .thread k, .thread k, .main, .main]) ++
    List.replicate (n + 4) .main

end TmkDcl.Pipeline
