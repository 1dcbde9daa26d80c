import Mathlib.Data.List.Basic
import Mathlib.Logic.Function.Basic
import TmkDcl.Lts

/-!
# The beats of the cameras (tools/spinnaker/src/captureManager.cpp, captureThread.cpp)

`CaptureManager::runThreads` is the master, each camera has a thread in
`CaptureThread::operator()`, and `CaptureManager::stop` is called from another thread. A wait on a
condition variable tests its predicate, under `ScheduleGuard`, and goes to sleep in a second step;
`notify_one` wakes the waiter if it already sleeps. No two parties wait on the same condition
variable, and each holds a `mBeatGuard` of its own, which so excludes nobody.
-/

namespace TmkDcl.Spinnaker

/-- The cameras added to the manager, and which of them has the sdk "spin". -/
structure Cameras where
  count : ℕ
  spin : ℕ → Bool

/-- `CaptureThread::operator()` (`captureThread.cpp:44-120`). -/
inductive ThreadPc where
  | start
  | clear
  | test
  | check
  | sleep
  | asleep
  | capture
  | unschedule
  | notify
  | finished
  deriving DecidableEq

/-- The three loops of `runThreads` with a beat: for each camera, three for the first camera, and
the loop that captures with all of them. -/
inductive Beat where
  | camera (j i : ℕ)
  | first (i : ℕ)
  | all
  deriving DecidableEq

/-- `CaptureManager::runThreads` (`captureManager.cpp:32-150`). -/
inductive MasterPc where
  | begin
  | spawn (i : ℕ)
  | startup (i : ℕ)
  | clear (j : ℕ)
  | schedule (b : Beat)
  | wake (b : Beat) (k : ℕ)
  | check (b : Beat)
  | sleep (b : Beat)
  | asleep (b : Beat)
  | storeFrames
  | test
  | wakeAll (k : ℕ)
  | returned
  | threw
  deriving DecidableEq

/-- `CaptureManager::stop` (`captureManager.cpp:152-170`). -/
inductive StopPc where
  | idle
  | clear
  | storeFrames
  | doCapture
  | notify
  | join (k : ℕ)
  | done
  deriving DecidableEq

/-- `CaptureScheduled`, the flags, the beat number, the frames saved (camera and beat), and the
threads, of which those not yet created are `none`. -/
structure State where
  scheduled : ℕ → Bool
  doCapture : Bool
  storeFrames : Bool
  beatNo : ℕ
  saved : List (ℕ × ℕ)
  threads : ℕ → Option ThreadPc
  master : MasterPc
  stop : StopPc

/-- `CaptureScheduled == mFalses`. -/
def State.noneScheduled (cams : Cameras) (s : State) : Bool :=
  (List.range cams.count).all fun i => !s.scheduled i

def State.setThread (s : State) (i : ℕ) (pc : ThreadPc) : State :=
  { s with threads := Function.update s.threads i (some pc) }

@[simp] theorem setThread_self (s : State) (i : ℕ) (pc : ThreadPc) :
    (s.setThread i pc).threads i = some pc := Function.update_self ..

theorem setThread_of_ne {s : State} {i k : ℕ} {pc : ThreadPc} (h : k ≠ i) :
    (s.setThread i pc).threads k = s.threads k := Function.update_of_ne h ..

@[simp] theorem setThread_scheduled (s : State) (i : ℕ) (pc : ThreadPc) :
    (s.setThread i pc).scheduled = s.scheduled := rfl

@[simp] theorem setThread_doCapture (s : State) (i : ℕ) (pc : ThreadPc) :
    (s.setThread i pc).doCapture = s.doCapture := rfl

@[simp] theorem setThread_master (s : State) (i : ℕ) (pc : ThreadPc) :
    (s.setThread i pc).master = s.master := rfl

@[simp] theorem setThread_stop (s : State) (i : ℕ) (pc : ThreadPc) :
    (s.setThread i pc).stop = s.stop := rfl

/-- `mThreads[i]->wakeUp()`. -/
def State.wakeUp (s : State) (i : ℕ) : State :=
  if s.threads i = some .asleep then s.setThread i .check else s

/-- `MasterBeatWait.notify_one()`. -/
def State.notifyMaster (s : State) : State :=
  match s.master with
  | .asleep b => { s with master := .check b }
  | _ => s

/-- What `runThreads` does behind the wait of a beat. -/
def afterBeat (s : State) : Beat → State
  | .camera j i =>
    { s with master := if i + 1 < 3 then .schedule (.camera j (i + 1)) else .clear (j + 1) }
  | .first i =>
    { s with master := if i + 1 < 3 then .schedule (.first (i + 1)) else .storeFrames }
  | .all => { s with beatNo := s.beatNo + 1, master := .test }

/-- One statement of `runThreads`. -/
def runThreads (cams : Cameras) (s : State) : Option State :=
  match s.master with
  | .begin =>
    if cams.count = 0 then some { s with master := .returned }
    else some { s with scheduled := fun _ => true, master := .spawn 0 }
  | .spawn i =>
    if i < cams.count then some { s.setThread i .start with master := .spawn (i + 1) }
    else some { s with master := .startup 0 }
  | .startup i =>
    -- a second has passed; the last of the 3 * count rounds throws std::logic_error
    if s.noneScheduled cams then some { s with master := .clear 0 }
    else if i = 3 * cams.count - 1 then some { s with master := .threw }
    else some { s with master := .startup (i + 1) }
  | .clear j =>
    some { s with
      scheduled := fun _ => false
      master := .schedule (if j < cams.count then .camera j 0 else .first 0) }
  | .schedule b =>
    match b with
    | .camera j _ =>
      some { s with scheduled := Function.update s.scheduled j true, master := .wake b j }
    | .first _ =>
      some { s with scheduled := Function.update s.scheduled 0 true, master := .wake b 0 }
    | .all => some { s with scheduled := fun _ => true, master := .wake b 0 }
  | .wake b k =>
    match b with
    | .all =>
      if k < cams.count then some { s.wakeUp k with master := .wake b (k + 1) }
      else some { s with master := .check b }
    | _ => some { s.wakeUp k with master := .check b }
  | .check b =>
    if s.noneScheduled cams then some (afterBeat s b) else some { s with master := .sleep b }
  | .sleep b => some { s with master := .asleep b }
  | .asleep _ => none
  | .storeFrames => some { s with storeFrames := true, master := .test }
  | .test => some { s with master := if s.doCapture then .schedule .all else .wakeAll 0 }
  | .wakeAll k =>
    if k < cams.count then some { s.wakeUp k with master := .wakeAll (k + 1) }
    else some { s with master := .returned }
  | .returned => none
  | .threw => none

/-- One statement of the thread of camera `i`. -/
def captureThread (cams : Cameras) (s : State) (i : ℕ) : Option State :=
  match s.threads i with
  | none => none
  | some .start => some (s.setThread i (if cams.spin i then .clear else .finished))
  | some .clear =>
    some { s.setThread i .test with scheduled := Function.update s.scheduled i false }
  | some .test => some (s.setThread i (if s.doCapture then .check else .finished))
  | some .check => some (s.setThread i (if s.scheduled i then .capture else .sleep))
  | some .sleep => some (s.setThread i .asleep)
  | some .asleep => none
  | some .capture =>
    some { s.setThread i .unschedule with
      saved := if s.storeFrames then s.saved ++ [(i, s.beatNo)] else s.saved }
  | some .unschedule =>
    some { s.setThread i .notify with scheduled := Function.update s.scheduled i false }
  | some .notify => some (s.notifyMaster.setThread i .test)
  | some .finished => none

/-- `stop` is called once `runThreads` has made its threads: before, it would run over
`mThreadKeepers` while that is filled. -/
def MasterPc.spawned : MasterPc → Bool
  | .begin => false
  | .spawn _ => false
  | _ => true

/-- One statement of `stop`. -/
def stopStep (cams : Cameras) (s : State) : Option State :=
  match s.stop with
  | .idle => if s.master.spawned then some { s with stop := .clear } else none
  | .clear => some { s with scheduled := fun _ => false, stop := .storeFrames }
  | .storeFrames => some { s with storeFrames := false, stop := .doCapture }
  | .doCapture => some { s with doCapture := false, stop := .notify }
  | .notify => some { s.notifyMaster with stop := .join 0 }
  | .join k =>
    if k < cams.count then
      if s.threads k = some .finished then some { s with stop := .join (k + 1) } else none
    else some { s with stop := .done }
  | .done => none

inductive Label where
  | master
  | thread (i : ℕ)
  | stop
  deriving DecidableEq

def step (cams : Cameras) (s : State) : Label → Option State
  | .master => runThreads cams s
  | .thread i => captureThread cams s i
  | .stop => stopStep cams s

def initial : State where
  scheduled := fun _ => false
  doCapture := true
  storeFrames := false
  beatNo := 0
  saved := []
  threads := fun _ => none
  master := .begin
  stop := .idle

def system (cams : Cameras) : Lts State Label where
  init s := s = initial
  step := step cams

end TmkDcl.Spinnaker
