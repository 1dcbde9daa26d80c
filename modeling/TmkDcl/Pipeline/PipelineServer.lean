import TmkDcl.Bytes
import TmkDcl.Pipeline.ModulesConfiguration

/-!
# Starting and destroying a pipeline (pipeline_server.c, pipeline_module.c)

`pipeline_init` makes the structure that `*p_pl` points to, or takes the one that is there, and
starts the pipeline thread; `pipeline_destroy` waits for the thread and frees the structure. Each
call of `pipeline_init` with a description has a number, which names the thread, the mapping and
the modules that it makes.
-/

namespace TmkDcl.Pipeline.PipelineServer

/-- `struct pipeline_description`; `modules_cnt` is the length of `mdescs`. -/
structure PipelineDescription where
  waitOnStart : ℤ
  shmpath : String
  dataCnt : ℤ
  dataSize : ℤ
  procCnt : ℤ
  mdescs : List ModuleDescription
  deriving DecidableEq

/-- The documents in the files, by their names; a file that cannot be opened is rejected. -/
abbrev Files := Bytes → Except Failure Json

def pipelineDescriptionInit (waitOnStart : ℤ) (shmpath : String) (dataCnt dataSize : ℤ)
    (mdescs : List ModuleDescription) : PipelineDescription where
  waitOnStart := waitOnStart
  shmpath := shmpath
  dataCnt := dataCnt
  dataSize := dataSize
  procCnt := mdescs.length + 1
  mdescs := mdescs

/-- `read_pipeline_configuration` (`config.cpp:152-182`). -/
def readPipelineConfiguration (files : Files) (fileName : Bytes) :
    Except Failure PipelineDescription :=
  if fileName = [] then .error .rejected
  else do
    let modules ← readModulesConfiguration (← files fileName)
    if modules.length < 1 then .error .rejected
    else .ok (pipelineDescriptionInit 3 "/procsegment" 512 256 (descriptions modules))

/-- `struct pipeline_module`, as far as the server sets it up; `call` is the call of
`pipeline_init` that added it. -/
structure PipelineModule where
  id : ℤ
  idx : ℤ
  mdesc : ModuleDescription
  threadMethod : Option ThreadMethod
  next : Option ℕ
  call : ℕ
  deriving DecidableEq

/-- `struct pipeline`; `address` is the call that allocated it, and `threadId` is `none` where no
thread has been created. -/
structure PipelineStruct where
  address : ℕ
  pdesc : Option PipelineDescription
  threadId : Option ℕ
  procCnt : ℤ
  shmpath : String
  shmem : Option ℕ
  dataCnt : ℤ
  dataSize : ℤ
  modulesCnt : ℤ
  modulesList : List PipelineModule
  deriving DecidableEq

/-- A `pipeline_thread`, by the call that created it, and the structure it was given. -/
structure PipelineThread where
  call : ℕ
  pl : ℕ
  deriving DecidableEq

/-- The process of the command server: `pl`, the flag of the server, the pipeline threads that run
and the shared segments that are mapped. `calls` counts the calls of `pipeline_init` with a
description, and `accepted` is the last one that returned 0. -/
structure ServerState where
  pl : Option PipelineStruct
  exitFlag : Bool
  threads : List PipelineThread
  mappings : List ℕ
  calls : ℕ
  accepted : Option (ℕ × PipelineDescription)
  deriving DecidableEq

/-- How the operating system answers: whether the shared memory and the thread can be created, and
whether `pthread_join` returns for an id that is no thread's. -/
structure Os where
  shmem : Bool
  thread : Bool
  joinsAny : Bool

/-- `memset(pl, 0, ..)`. -/
def zeroed (address : ℕ) : PipelineStruct where
  address := address
  pdesc := none
  threadId := none
  procCnt := 0
  shmpath := ""
  shmem := none
  dataCnt := 0
  dataSize := 0
  modulesCnt := 0
  modulesList := []

/-- `pipeline_module_add` (`pipeline_module.c:54-98`). -/
def pipelineModuleAdd (call : ℕ) (pl : PipelineStruct) (mdesc : ModuleDescription) :
    PipelineStruct :=
  { pl with
    modulesCnt := pl.modulesCnt + 1
    modulesList := pl.modulesList ++ [⟨mdesc.id, -1, mdesc, threadMethod mdesc, none, call⟩] }

/-- The links that `pipeline_modules_update` sets. -/
def linkModules (modules : List PipelineModule) : List PipelineModule :=
  modules.map fun m => { m with next := pipelineModuleGet m.mdesc.next (modules.map (·.mdesc)) }

/-- `pipeline_module_destroy` (`pipeline_module.c:28-35`). -/
def pipelineModuleDestroy (m : PipelineModule) : PipelineModule := { m with id := -150, idx := -250 }

/-- `pipeline_destroy` (`pipeline_server.c:194-221`): the structure and its modules are freed. -/
def pipelineDestroy (os : Os) (pl : PipelineStruct) (s : ServerState) : Option ServerState :=
  if pl.threadId = none ∧ os.joinsAny = false then none
  else
    some { s with
      threads := s.threads.filter fun t => some t.call ≠ pl.threadId
      mappings := s.mappings.filter fun m => some m ≠ pl.shmem }

/-- What `pipeline_init` stores in the structure before the shared memory is made
(`pipeline_server.c:128-138`). -/
def configure (pdesc : PipelineDescription) (pl : PipelineStruct) : PipelineStruct :=
  { pl with
    pdesc := some pdesc
    procCnt := pdesc.procCnt
    dataCnt := pdesc.dataCnt
    dataSize := pdesc.dataSize
    shmpath := pdesc.shmpath }

/-- The mapping and the list of the modules (`pipeline_server.c:152-157`); `list_init` makes the
list empty, and nothing resets `modules_cnt`. -/
def addModules (call : ℕ) (pdesc : PipelineDescription) (pl : PipelineStruct) : PipelineStruct :=
  pdesc.mdescs.foldl (pipelineModuleAdd call) { pl with shmem := some call, modulesList := [] }

/-- The thread of the pipeline (`pipeline_server.c:170-178`). -/
def startThread (os : Os) (call : ℕ) (pdesc : PipelineDescription) (pl : PipelineStruct)
    (s : ServerState) : ServerState :=
  { s with
    pl := some { pl with
      threadId := if os.thread then some call else none
      modulesList := linkModules pl.modulesList }
    threads := if os.thread then s.threads ++ [⟨call, pl.address⟩] else s.threads
    accepted := some (call, pdesc) }

/-- `pipeline_init(&pl, pdesc)` (`pipeline_server.c:106-178`). -/
def pipelineInit (os : Os) (pdesc : Option PipelineDescription) (s : ServerState) :
    Option (ℤ × ServerState) :=
  match pdesc with
  | none => some (-1, s)
  | some pdesc =>
    let call := s.calls
    let pl := configure pdesc (s.pl.getD (zeroed call))
    let s := { s with calls := call + 1 }
    if os.shmem = false then some (-1, { s with pl := none })
    else
      let pl := addModules call pdesc pl
      let s := { s with mappings := s.mappings ++ [call] }
      if pipelineModulesUpdate (pl.modulesList.map (·.mdesc)) ≠ 0 then
        (pipelineDestroy os pl s).map fun s => (-1, { s with pl := none })
      else some (0, startThread os call pdesc pl s)

/-- The end of `pipeline_thread`, for the structure that it was given. -/
def PipelineThread.destroyModules (t : PipelineThread) (pl : PipelineStruct) : PipelineStruct :=
  if pl.address = t.pl then { pl with modulesList := pl.modulesList.map pipelineModuleDestroy }
  else pl

/-- A pipeline thread ends. -/
def threadEnds (t : PipelineThread) (s : ServerState) : Option ServerState :=
  if t ∈ s.threads then
    some { s with threads := s.threads.filter (· ≠ t), pl := s.pl.map t.destroyModules }
  else none

/-! ### The modules -/

section Modules

variable {call : ℕ} {pdesc : PipelineDescription} {pl : PipelineStruct}

theorem foldl_pipelineModuleAdd (mdescs : List ModuleDescription) (pl : PipelineStruct) :
    mdescs.foldl (pipelineModuleAdd call) pl = { pl with
      modulesCnt := pl.modulesCnt + mdescs.length
      modulesList := pl.modulesList ++
        mdescs.map fun mdesc => ⟨mdesc.id, -1, mdesc, threadMethod mdesc, none, call⟩ } := by
  induction mdescs generalizing pl with
  | nil => simp
  | cons mdesc mdescs ih =>
    rw [List.foldl_cons, ih, pipelineModuleAdd]
    simp only [List.length_cons, List.map_cons, List.append_assoc, List.singleton_append]
    congr 1
    push_cast
    omega

theorem addModules_eq : addModules call pdesc pl = { pl with
    shmem := some call
    modulesCnt := pl.modulesCnt + pdesc.mdescs.length
    modulesList := pdesc.mdescs.map fun mdesc =>
      ⟨mdesc.id, -1, mdesc, threadMethod mdesc, none, call⟩ } := by
  rw [addModules, foldl_pipelineModuleAdd]
  rfl

end Modules

section Ends

variable (t : PipelineThread) (pl : PipelineStruct)

theorem destroyModules_modulesList : (t.destroyModules pl).modulesList =
    if pl.address = t.pl then pl.modulesList.map pipelineModuleDestroy else pl.modulesList := by
  rw [PipelineThread.destroyModules]
  split <;> rfl

@[simp] theorem destroyModules_modulesCnt : (t.destroyModules pl).modulesCnt = pl.modulesCnt := by
  rw [PipelineThread.destroyModules]
  split <;> rfl

@[simp] theorem destroyModules_shmem : (t.destroyModules pl).shmem = pl.shmem := by
  rw [PipelineThread.destroyModules]
  split <;> rfl

@[simp] theorem destroyModules_threadId : (t.destroyModules pl).threadId = pl.threadId := by
  rw [PipelineThread.destroyModules]
  split <;> rfl

end Ends

end TmkDcl.Pipeline.PipelineServer
