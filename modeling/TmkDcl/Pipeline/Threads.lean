import TmkDcl.Pipeline.Module
import TmkDcl.RingBuffer
import Mathlib.Logic.Function.Basic

/-!
# The module threads (pipeline.c)

Each thread method is a function from a program point to the effect of the one
statement there: a semaphore operation, a read or a write of a shared field, or
a ring section. `none` means that the statement blocks (or, for a module
without a next one or a push outside of the buffer, that it faults). A statement that only touches locals is
joined to its neighbour.

The log records what the properties speak about: the slots popped, what goes in
and out of a mailbox, and the exchange of jobs and results with the children.
No statement reads it.
-/

namespace TmkDcl.Pipeline

/-- The bytes of one data chunk. -/
abbrev Chunk := List UInt8

/-- `PROCESS_CMD_STOP` and `PROCESS_CMD_JOB` (`process_mngr.h:13-14`). -/
inductive Cmd where
  | stop
  | job
  deriving DecidableEq, Repr

/-- `enum MD_STATE` (`pipeline_module.h:14-20`). -/
inductive MdState where
  | unknown
  | error
  | init
  | live
  deriving DecidableEq, Repr

/-- The statement a module thread is about to run. -/
inductive Pc where
  /-- zeroed by `pipeline_module_add`, no thread yet -/
  | uninit
  | start
  | failFlag
  | failPost
  /-- returned after a failed start -/
  | failed
  | startPost
  | checkExit
  | checkState
  | readOwnCmd
  | popWait
  | popTake
  | writeTest
  | waitCmd
  | readCmd
  | readOffset
  | postResult
  | setCmd
  | setOffs
  | postJob
  | waitResult
  | readResult
  | push
  | pushPost
  | clean
  | waitNext
  | putCmd
  | putOffset
  | postNext
  | stopWaitNext
  | stopPutCmd
  | stopPostNext
  | checkNextIdx
  | stopSetCmd
  | stopPostJob
  | stopWaitResult
  | setInit
  /-- returned -/
  | done
  deriving DecidableEq, Repr

/-- The fields of `struct pipeline_module` that its predecessor shares. -/
structure Mailbox where
  newCmd : ℕ
  result : ℕ
  cmd : Cmd
  dataoffset : ℕ

/-- A module thread: its program point and the locals `cmd` and `dataoffset`. -/
structure Thread where
  pc : Pc
  cmd : Cmd
  dataoffset : ℕ

/-- `struct process_info` (`process_mngr.h:30-41`), the part both sides use. -/
structure ProcessInfo where
  semJob : ℕ
  semResult : ℕ
  cmd : Cmd
  cmdOffs : ℕ
  cmdResult : ℤ

/-- The statement of `pipeline_process` a child is about to run. -/
inductive ChildPc where
  /-- not forked -/
  | absent
  | waitJob
  | readCmd
  | action
  | post (exitFlag : Bool)
  /-- left its loop -/
  | gone
  deriving DecidableEq, Repr

/-- A child: `status` is the variable passed to the action; `wrote` records
whether the action of the current job has written to its slot. -/
structure Child where
  pc : ChildPc
  status : ℤ
  wrote : Bool

/-- The statement `pipeline_thread` is about to run; the argument is the module. -/
inductive MainPc where
  | startNext (k : ℕ)
  | waitStart (k : ℕ)
  | checkIdx (k : ℕ)
  | joinFailed (k : ℕ)
  | decide
  | checkLive
  | setLive (k : ℕ)
  | join (k : ℕ)
  | finish
  | returned
  deriving DecidableEq, Repr

/-- The statement `pipeline_destroy` is about to run. -/
inductive DestroyPc where
  /-- not called -/
  | idle
  | join
  | cleanup
  | returned
  deriving DecidableEq, Repr

/-- What a mailbox carries: a command and, for a job, the slot and its bytes. -/
inductive Msg where
  | stop
  | job (offs : ℕ) (data : Chunk)
  deriving DecidableEq, Repr

/-- An entry of the log. -/
inductive Event where
  /-- module `i` took a slot out of the ring -/
  | pop (i offs : ℕ) (data : Chunk)
  /-- the predecessor of module `j` posted its mailbox -/
  | mail (j : ℕ) (m : Msg)
  /-- module `j` read its mailbox -/
  | take (j : ℕ) (m : Msg)
  /-- module `i` posted `sem_job` -/
  | ask (i : ℕ) (cmd : Cmd) (offs : ℕ)
  /-- the child of module `i` stored `cmd_result` -/
  | answer (i : ℕ) (cmd : Cmd) (offs : ℕ) (result : ℤ)
  /-- module `i` passed its wait on `sem_result` -/
  | reply (i : ℕ) (result : ℤ)
  /-- module `i` is over with a job -/
  | finish (i offs : ℕ) (data : Chunk) (result : ℤ) (wrote : Bool)
  deriving DecidableEq, Repr

/-- The joint state. `idx` and `st` are the fields `idx` and `state` of the
modules, `chunk` is the shared data area by offset. -/
structure State where
  box : ℕ → Mailbox
  thr : ℕ → Thread
  idx : ℕ → ℤ
  st : ℕ → MdState
  proc : ℕ → ProcessInfo
  child : ℕ → Child
  ring : RingBuffer
  chunk : ℕ → Chunk
  exitFlag : Bool
  startControl : ℕ
  plState : MdState
  realStarted : ℕ
  main : MainPc
  destroyer : DestroyPc
  log : List Event

namespace State

@[simp] def goto (s : State) (i : ℕ) (pc : Pc) : State :=
  { s with thr := Function.update s.thr i { s.thr i with pc := pc } }

@[simp] def setBox (s : State) (j : ℕ) (b : Mailbox) : State :=
  { s with box := Function.update s.box j b }

@[simp] def setProc (s : State) (i : ℕ) (p : ProcessInfo) : State :=
  { s with proc := Function.update s.proc i p }

@[simp] def setChild (s : State) (i : ℕ) (c : Child) : State :=
  { s with child := Function.update s.child i c }

@[simp] def setChunk (s : State) (offs : ℕ) (d : Chunk) : State :=
  { s with chunk := Function.update s.chunk offs d }

@[simp] def emit (s : State) (e : Event) : State := { s with log := s.log ++ [e] }

end State

/-- `pipeline_module_set_state` (`pipeline_module.c:133-140`): an error stays. -/
def pipelineModuleSetState (state old : MdState) : MdState :=
  if old = .error then .error else state

/-- What a mailbox holds. -/
def Mailbox.letter (b : Mailbox) (chunk : ℕ → Chunk) : Msg :=
  match b.cmd with
  | .stop => .stop
  | .job => .job b.dataoffset (chunk b.dataoffset)

/-! ### Statements of the threads -/

section Statements

variable (cfg : Config) (s : State) (i : ℕ) (pc : Pc)

/-- `module->idx = process_start(mdesc->argv)` and the test of the result. A
successful fork runs `pipeline_process` up to its first wait. -/
def startExternal : Option State :=
  match cfg.processStart i with
  | some id => some { (s.goto i .startPost).setChild i ⟨.waitJob, -1, false⟩ with
      idx := Function.update s.idx i id }
  | none => some { s.goto i .failFlag with idx := Function.update s.idx i (-1) }

/-- `module->idx = process_start(NULL)`, without a test of the result. -/
def startInternal : Option State :=
  match cfg.processStart i with
  | some id => some { s.goto i .startPost with idx := Function.update s.idx i id }
  | none => some { s.goto i .startPost with idx := Function.update s.idx i (-1) }

/-- `*(module->exit_flag) = 1`. -/
def raiseExit : Option State := some { s.goto i pc with exitFlag := true }

/-- `sem_post(module->start_control)`. -/
def postStart : Option State := some { s.goto i pc with startControl := s.startControl + 1 }

/-- `cmd = module->cmd`. -/
def readCmd : Option State :=
  some { s with thr := Function.update s.thr i { s.thr i with pc := pc, cmd := (s.box i).cmd } }

/-- The wait of `ring_buffer_pop`. -/
def ringWait : Option State :=
  if 0 < s.ring.sem then
    some { s.goto i pc with ring := { s.ring with sem := s.ring.sem - 1 } }
  else none

/-- `dataoffset = ring_buffer_pop(module->data_ring)` after its wait. -/
def ringTake : Option State :=
  let offs := (ringBufferPop s.ring).1
  some (State.emit { s with
    ring := (ringBufferPop s.ring).2,
    thr := Function.update s.thr i { s.thr i with pc := pc, dataoffset := offs } }
    (.pop i offs (s.chunk offs)))

/-- `ring_buffer_push(module->data_ring, dataoffset)` before its post. A write outside of the
buffer faults. -/
def ringPut : Option State :=
  if s.ring.PushInside then
    some { s.goto i pc with ring := ringBufferPush s.ring (s.thr i).dataoffset }
  else none

/-- The post of `ring_buffer_push`. -/
def ringPost : Option State :=
  some { s.goto i pc with ring := { s.ring with sem := s.ring.sem + 1 } }

/-- `sem_wait(&module->new_cmd)`. -/
def waitCmd : Option State :=
  if 0 < (s.box i).newCmd then
    some ((s.goto i pc).setBox i { s.box i with newCmd := (s.box i).newCmd - 1 })
  else none

/-- `dataoffset = module->dataoffset`; `cmd` has been read just before. -/
def readOffset : Option State :=
  let offs := (s.box i).dataoffset
  let m := match (s.thr i).cmd with
    | .stop => Msg.stop
    | .job => .job offs (s.chunk offs)
  some (State.emit { s with
    thr := Function.update s.thr i { s.thr i with pc := pc, dataoffset := offs } }
    (.take i m))

/-- `sem_post(&module->result)`, then the test of `cmd`. -/
def postResult (stop job : Pc) : Option State :=
  let pc := match (s.thr i).cmd with
    | .stop => stop
    | .job => job
  some ((s.goto i pc).setBox i { s.box i with result := (s.box i).result + 1 })

/-- `module->proc_info->cmd = cmd`. -/
def setCmd (cmd : Cmd) : Option State :=
  some ((s.goto i pc).setProc i { s.proc i with cmd := cmd })

/-- `module->proc_info->cmd_offs = dataoffset`. -/
def setOffs : Option State :=
  some ((s.goto i pc).setProc i { s.proc i with cmdOffs := (s.thr i).dataoffset })

/-- `sem_post(&module->proc_info->sem_job)`. -/
def postJob : Option State :=
  some (((s.goto i pc).setProc i { s.proc i with semJob := (s.proc i).semJob + 1 }).emit
    (.ask i (s.proc i).cmd (s.proc i).cmdOffs))

/-- `sem_wait(&module->proc_info->sem_result)`. -/
def waitResult : Option State :=
  if 0 < (s.proc i).semResult then
    some (((s.goto i pc).setProc i { s.proc i with semResult := (s.proc i).semResult - 1 }).emit
      (.reply i (s.proc i).cmdResult))
  else none

/-- The entry of the log for the job of module `i` that is over. -/
def finishEvent : Event :=
  .finish i (s.thr i).dataoffset (s.chunk (s.thr i).dataoffset) (s.proc i).cmdResult
    (s.child i).wrote

/-- `sem_wait(&module->next->result)`. -/
def waitNext : Option State :=
  (cfg.next i).bind fun j =>
    if 0 < (s.box j).result then
      some ((s.goto i pc).setBox j { s.box j with result := (s.box j).result - 1 })
    else none

/-- `module->next->cmd = cmd`. -/
def putCmd (cmd : Cmd) : Option State :=
  (cfg.next i).map fun j => (s.goto i pc).setBox j { s.box j with cmd := cmd }

/-- `module->next->dataoffset = dataoffset`. -/
def putOffset : Option State :=
  (cfg.next i).map fun j =>
    (s.goto i pc).setBox j { s.box j with dataoffset := (s.thr i).dataoffset }

/-- `sem_post(&module->next->new_cmd)`. -/
def postNext : Option State :=
  (cfg.next i).map fun j =>
    ((s.goto i pc).setBox j { s.box j with newCmd := (s.box j).newCmd + 1 }).emit
      (.mail j ((s.box j).letter s.chunk))

/-- `data[0] = '\0'`. -/
def cleanData : Option State :=
  some ((s.goto i pc).setChunk (s.thr i).dataoffset ((s.chunk (s.thr i).dataoffset).set 0 0))

/-- `pipeline_module_set_state(MD_STATE_INIT, module)`. -/
def setInit : Option State :=
  some { s.goto i pc with st := Function.update s.st i (pipelineModuleSetState .init (s.st i)) }

end Statements

/-! ### The thread methods -/

/-- `source_thread` (`pipeline.c:149-223`). -/
def sourceThread (cfg : Config) (s : State) (i : ℕ) : Option State :=
  match (s.thr i).pc with
  | .start => startExternal cfg s i
  | .failFlag => raiseExit s i .failPost
  | .failPost => postStart s i .failed
  | .startPost => postStart s i .checkExit
  | .checkExit => some (s.goto i (if s.exitFlag then .stopWaitNext else .checkState))
  | .checkState => some (s.goto i (if s.st i = .live then .readOwnCmd else .checkExit))
  | .readOwnCmd => readCmd s i .popWait
  | .popWait => ringWait s i .popTake
  | .popTake => ringTake s i .setCmd
  | .setCmd => setCmd s i .setOffs (s.thr i).cmd
  | .setOffs => setOffs s i .postJob
  | .postJob => postJob s i .waitResult
  | .waitResult => (waitResult s i .waitNext).map fun t => t.emit (finishEvent s i)
  | .waitNext => waitNext cfg s i .putCmd
  | .putCmd => putCmd cfg s i .putOffset .job
  | .putOffset => putOffset cfg s i .postNext
  | .postNext => postNext cfg s i .checkExit
  | .stopWaitNext => waitNext cfg s i .stopPutCmd
  | .stopPutCmd => putCmd cfg s i .stopPostNext .stop
  | .stopPostNext => postNext cfg s i .stopSetCmd
  | .stopSetCmd => setCmd s i .stopPostJob .stop
  | .stopPostJob => postJob s i .stopWaitResult
  | .stopWaitResult => waitResult s i .setInit
  | .setInit => setInit s i .done
  | _ => none

/-- `process_thread` (`pipeline.c:225-301`). -/
def processThread (cfg : Config) (s : State) (i : ℕ) : Option State :=
  match (s.thr i).pc with
  | .start => startExternal cfg s i
  | .failFlag => raiseExit s i .failPost
  | .failPost => postStart s i .failed
  | .startPost => postStart s i .waitCmd
  | .waitCmd => waitCmd s i .readCmd
  | .readCmd => readCmd s i .readOffset
  | .readOffset => readOffset s i .postResult
  | .postResult => postResult s i .stopWaitNext .setCmd
  | .setCmd => setCmd s i .setOffs (s.thr i).cmd
  | .setOffs => setOffs s i .postJob
  | .postJob => postJob s i .waitResult
  | .waitResult => waitResult s i .readResult
  | .readResult =>
    some ((s.goto i (if (s.proc i).cmdResult ≠ 0 then .push else .waitNext)).emit
      (finishEvent s i))
  | .push => ringPut s i .pushPost
  | .pushPost => ringPost s i .waitCmd
  | .waitNext => waitNext cfg s i .putCmd
  | .putCmd => putCmd cfg s i .putOffset .job
  | .putOffset => putOffset cfg s i .postNext
  | .postNext => postNext cfg s i .waitCmd
  | .stopWaitNext => waitNext cfg s i .stopPutCmd
  | .stopPutCmd => putCmd cfg s i .stopPostNext .stop
  | .stopPostNext => postNext cfg s i .stopSetCmd
  | .stopSetCmd => setCmd s i .stopPostJob .stop
  | .stopPostJob => postJob s i .stopWaitResult
  | .stopWaitResult => waitResult s i .done
  | _ => none

/-- `finalization_thread` (`pipeline.c:18-62`). -/
def finalizationThread (cfg : Config) (s : State) (i : ℕ) : Option State :=
  match (s.thr i).pc with
  | .start => startInternal cfg s i
  | .startPost => postStart s i .waitCmd
  | .waitCmd => waitCmd s i .readCmd
  | .readCmd => readCmd s i .readOffset
  | .readOffset => readOffset s i .postResult
  | .postResult => postResult s i .setInit .clean
  | .clean => cleanData s i .push
  | .push => ringPut s i .pushPost
  | .pushPost => ringPost s i .waitCmd
  | .setInit => setInit s i .done
  | _ => none

/-- `strcpy(data, "test")` of `initial_thread` (`pipeline.c:84`). -/
def writeTest (s : State) (i : ℕ) : Option State :=
  let d := s.chunk (s.thr i).dataoffset
  some ((s.goto i .setCmd).setChunk (s.thr i).dataoffset
    (([116, 101, 115, 116, 0] ++ d.drop 5).take d.length))

/-- `initial_thread` (`pipeline.c:65-146`): no child takes part in its jobs. -/
def initialThread (cfg : Config) (s : State) (i : ℕ) : Option State :=
  match (s.thr i).pc with
  | .start => startInternal cfg s i
  | .startPost => postStart s i .checkExit
  | .checkExit => some (s.goto i (if s.exitFlag then .stopWaitNext else .checkState))
  | .checkState => some (s.goto i (if s.st i = .live then .readOwnCmd else .checkExit))
  | .readOwnCmd => readCmd s i .popWait
  | .popWait => ringWait s i .popTake
  | .popTake => ringTake s i .writeTest
  | .writeTest => writeTest s i
  | .setCmd => setCmd s i .setOffs (s.thr i).cmd
  | .setOffs => setOffs s i .waitNext
  | .waitNext => waitNext cfg s i .putCmd
  | .putCmd => putCmd cfg s i .putOffset .job
  | .putOffset => putOffset cfg s i .postNext
  | .postNext => postNext cfg s i .checkExit
  | .stopWaitNext => waitNext cfg s i .stopPutCmd
  | .stopPutCmd => putCmd cfg s i .stopPostNext .stop
  | .stopPostNext => postNext cfg s i .checkNextIdx
  | .checkNextIdx =>
    (cfg.next i).map fun j => s.goto i (if s.idx j > 1 then .stopSetCmd else .setInit)
  | .stopSetCmd => setCmd s i .stopPostJob .stop
  | .stopPostJob => postJob s i .stopWaitResult
  | .stopWaitResult => waitResult s i .setInit
  | .setInit => setInit s i .done
  | _ => none

/-- One statement of the thread of module `i`. -/
def threadStep (cfg : Config) (s : State) (i : ℕ) : Option State :=
  match cfg.method i with
  | some .sourceThread => sourceThread cfg s i
  | some .processThread => processThread cfg s i
  | some .finalizationThread => finalizationThread cfg s i
  | some .initialThread => initialThread cfg s i
  | none => none

/-- The thread has returned, so that `pthread_join` on it does. -/
def Pc.returned (pc : Pc) : Prop := pc = .done ∨ pc = .failed

instance (pc : Pc) : Decidable pc.returned := inferInstanceAs (Decidable (_ ∨ _))

end TmkDcl.Pipeline
