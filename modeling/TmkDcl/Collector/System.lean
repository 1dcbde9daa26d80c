import Mathlib.Logic.Function.Basic
import TmkDcl.Lts

/-!
# The collector and its sources (collector.c, source.c, simple_collector.c)

The parties are the threads that take the frames of the sources, the watchdog threads of the
UDP sources, `collect_data_thread` and a consumer that calls `collector_action` again and again.
A source has one pair of semaphores with the collector, and the collector one with the consumer;
the name of the object that is filled is in `collector->data` and in `data` of each source.
-/

namespace TmkDcl.Collector

/-- What `source_init` distinguishes of `enum source_type`. -/
inductive SourceType where
  | udp
  | tcp
  deriving DecidableEq

/-- A collector: its sources, whether each has an `add_frame_callback`, and the names that
`generate_new_object_name` makes of the clock, one after the other. -/
structure Config (α : Type*) where
  sourcesCnt : ℕ
  kind : ℕ → SourceType
  addFrame : ℕ → Bool
  name : ℕ → α

/-- `OBJECT_DETECTION_FRAME_LIMIT` (`source.h:11`). -/
def objectDetectionFrameLimit : ℕ := 50

/-- The thread that takes the frames: `source_data_thread_tcp`, or `camera_gvsp_thread` that
`source_data_thread_udp` creates; from `postData` to `count` it is in `new_frame_action`. -/
inductive FramePc (α : Type*) where
  | start
  | loop
  | reading
  | postData
  | checkExit
  | waitEmpty
  | checkAdd
  | adding (name : Option α)
  | count
  | postLast
  | ended
  deriving DecidableEq

def FramePc.isEnded {α : Type*} : FramePc α → Bool
  | .ended => true
  | _ => false

/-- `source_data_thread_udp` (`source.c:92-137`). -/
inductive WatchPc where
  | wait
  | create
  | watching
  | stop
  | setExit
  | postData
  | join
  | returned
  deriving DecidableEq

/-- `struct data_source`; `live` stands for the state `STREAM_LIVE` of the camera. -/
structure Source (α : Type*) where
  data : Option α
  emptyReady : ℕ
  dataReady : ℕ
  exitFlag : Bool
  framesInObject : ℕ
  live : Bool
  pc : FramePc α
  watch : WatchPc
  deriving DecidableEq

/-- `collect_data_thread` (`collector.c:18-109`). The loops that copy the name are one: the first
comes after the first wait and goes to the `while`, as the later ones. -/
inductive CollectorPc where
  | waitEmpty
  | copy (i : ℕ)
  | post (i : ℕ)
  | loop
  | waitData (i : ℕ)
  | postReady
  | count (i : ℕ)
  | checkExit
  | stopAll (i : ℕ)
  | drain (i : ℕ)
  | drainWait (i : ℕ)
  | postLast
  | returned
  deriving DecidableEq

/-- `collector_action` (`simple_collector.c:16-54`). -/
inductive ConsumerPc (α : Type*) where
  | check
  | postExit
  | waitData
  | handOver
  | generate
  | setName (name : α)
  | postEmpty
  deriving DecidableEq

/-- `struct data_collector`, its sources and threads, and the names handed to the pipeline. -/
structure State (α : Type*) where
  sources : ℕ → Source α
  exitFlag : Bool
  emptyReady : ℕ
  dataReady : ℕ
  data : α
  generated : ℕ
  handed : List α
  collector : CollectorPc
  consumer : ConsumerPc α

variable {α : Type*}

/-! ### The sources -/

/-- A statement of the thread that takes the frames (`source.c:26-82`, `152-214`,
`gige_camera.c:104-261`); from `reading` it goes on without a frame. -/
def frameStep (kind : SourceType) (addFrame : Bool) (x : Source α) : Option (Source α) :=
  match x.pc with
  | .start =>
    if kind = .tcp ∧ 0 < x.emptyReady then
      some { x with emptyReady := x.emptyReady - 1, pc := .loop }
    else none
  | .loop =>
    match kind with
    | .tcp => some { x with pc := if x.exitFlag then .postLast else .reading }
    | .udp => some { x with pc := if x.live then .reading else .ended }
  | .reading => some { x with pc := .loop }
  | .postData => some { x with dataReady := x.dataReady + 1, pc := .checkExit }
  | .checkExit => some { x with pc := if x.exitFlag then .checkAdd else .waitEmpty }
  | .waitEmpty =>
    if 0 < x.emptyReady then some { x with emptyReady := x.emptyReady - 1, pc := .checkAdd }
    else none
  | .checkAdd => some { x with pc := if !x.exitFlag && addFrame then .adding x.data else .count }
  | .adding _ => some { x with pc := .count }
  | .count => some { x with framesInObject := x.framesInObject + 1, pc := .loop }
  | .postLast => some { x with dataReady := x.dataReady + 1, pc := .ended }
  | .ended => none

/-- A frame is complete; `detected` is what `object_detection_callback` says (`source.c:49-50`). -/
def takeFrame (detected : Bool) (x : Source α) : Option (Source α) :=
  match x.pc with
  | .reading =>
    if detected ∨ x.framesInObject % objectDetectionFrameLimit = 0 then
      some { x with framesInObject := 0, pc := .postData }
    else some { x with pc := .checkAdd }
  | _ => none

/-- The socket fails: the TCP thread sets the exit flag (`source.c:169-174`), the thread of the camera
returns. -/
def readError (kind : SourceType) (x : Source α) : Option (Source α) :=
  match kind, x.pc with
  | .tcp, .reading => some { x with exitFlag := true, pc := .postLast }
  | .udp, .reading => some { x with pc := .ended }
  | _, _ => none

/-- A statement of `source_data_thread_udp`. -/
def watchStep (kind : SourceType) (x : Source α) : Option (Source α) :=
  match kind, x.watch with
  | .tcp, _ => none
  | .udp, .wait =>
    if 0 < x.emptyReady then some { x with emptyReady := x.emptyReady - 1, watch := .create } else none
  | .udp, .create => some { x with live := true, pc := .loop, watch := .watching }
  | .udp, .watching => some { x with watch := if !x.exitFlag && x.live then .watching else .stop }
  | .udp, .stop => some { x with live := false, watch := .setExit }
  | .udp, .setExit => some { x with exitFlag := true, watch := .postData }
  | .udp, .postData => some { x with dataReady := x.dataReady + 1, watch := .join }
  | .udp, .join => if x.pc.isEnded then some { x with watch := .returned } else none
  | .udp, .returned => none

/-- The thread of the source has returned. -/
def Source.Returned (kind : SourceType) (x : Source α) : Prop :=
  match kind with
  | .tcp => x.pc.isEnded
  | .udp => x.watch = .returned

/-! ### The collector and the consumer -/

def State.setSource (s : State α) (i : ℕ) (x : Source α) : State α :=
  { s with sources := Function.update s.sources i x }

/-- A statement of `collect_data_thread`. `cnt` is 0 again for every source
(`collector.c:53-60`). -/
def collectDataThread (cfg : Config α) (s : State α) : Option (State α) :=
  match s.collector with
  | .waitEmpty =>
    if 0 < s.emptyReady then some { s with emptyReady := s.emptyReady - 1, collector := .copy 0 }
    else none
  | .copy i =>
    if i < cfg.sourcesCnt then
      some { s.setSource i { s.sources i with data := some s.data } with collector := .post i }
    else some { s with collector := .loop }
  | .post i =>
    some { s.setSource i { s.sources i with emptyReady := (s.sources i).emptyReady + 1 } with
      collector := .copy (i + 1) }
  | .loop => some { s with collector := if s.exitFlag then .drain 0 else .waitData 0 }
  | .waitData i =>
    if i < cfg.sourcesCnt then
      if 0 < (s.sources i).dataReady then
        some { s.setSource i { s.sources i with dataReady := (s.sources i).dataReady - 1 } with
          collector := .waitData (i + 1) }
      else none
    else some { s with collector := .postReady }
  | .postReady => some { s with dataReady := s.dataReady + 1, collector := .count 0 }
  | .count i =>
    if i < cfg.sourcesCnt then
      let cnt := if (s.sources i).exitFlag then 1 else 0
      some { s with
        exitFlag := if cnt = cfg.sourcesCnt then true else s.exitFlag
        collector := .count (i + 1) }
    else some { s with collector := .checkExit }
  | .checkExit => some { s with collector := if s.exitFlag then .stopAll 0 else .waitEmpty }
  | .stopAll i =>
    if i < cfg.sourcesCnt then
      some { s.setSource i { s.sources i with exitFlag := true } with collector := .stopAll (i + 1) }
    else some { s with collector := .loop }
  | .drain i =>
    if i < cfg.sourcesCnt then
      some { s.setSource i { s.sources i with exitFlag := true } with collector := .drainWait i }
    else some { s with collector := .postLast }
  | .drainWait i =>
    if 0 < (s.sources i).dataReady then
      some { s.setSource i { s.sources i with dataReady := (s.sources i).dataReady - 1 } with
        collector := .drain (i + 1) }
    else none
  | .postLast => some { s with dataReady := s.dataReady + 1, collector := .returned }
  | .returned => none

/-- A statement of `collector_action`. -/
def collectorAction (cfg : Config α) (s : State α) : Option (State α) :=
  match s.consumer with
  | .check => some { s with consumer := if s.exitFlag then .postExit else .waitData }
  | .postExit => some { s with emptyReady := s.emptyReady + 1, consumer := .check }
  | .waitData =>
    if 0 < s.dataReady then some { s with dataReady := s.dataReady - 1, consumer := .handOver }
    else none
  | .handOver => some { s with handed := s.handed ++ [s.data], consumer := .generate }
  | .generate =>
    some { s with generated := s.generated + 1, consumer := .setName (cfg.name s.generated) }
  | .setName name => some { s with data := name, consumer := .postEmpty }
  | .postEmpty => some { s with emptyReady := s.emptyReady + 1, consumer := .check }

/-! ### The system -/

/-- Who takes a step. -/
inductive Label where
  | source (i : ℕ)
  | frame (i : ℕ) (detected : Bool)
  | readError (i : ℕ)
  | watch (i : ℕ)
  /-- somebody outside sets `source->exit_flag` -/
  | raise (i : ℕ)
  | collector
  | consumer
  deriving DecidableEq

/-- A step of one source. -/
def State.stepSource (cfg : Config α) (s : State α) (i : ℕ)
    (f : Source α → Option (Source α)) : Option (State α) :=
  if i < cfg.sourcesCnt then (f (s.sources i)).map (s.setSource i) else none

def step (cfg : Config α) (s : State α) : Label → Option (State α)
  | .source i => s.stepSource cfg i (frameStep (cfg.kind i) (cfg.addFrame i))
  | .frame i detected => s.stepSource cfg i (takeFrame detected)
  | .readError i => s.stepSource cfg i (readError (cfg.kind i))
  | .watch i => s.stepSource cfg i (watchStep (cfg.kind i))
  | .raise i => s.stepSource cfg i fun x => some { x with exitFlag := true }
  | .collector => collectDataThread cfg s
  | .consumer => collectorAction cfg s

def sourceInit : Source α := ⟨none, 0, 0, false, 0, false, .start, .wait⟩

/-- After `collector_init` and the first name (`simple_collector.c:109-150`): `data_ready` of the
collector is 1 for an object without frames. -/
def initial (cfg : Config α) : State α where
  sources _ := sourceInit
  exitFlag := false
  emptyReady := 0
  dataReady := 1
  data := cfg.name 0
  generated := 1
  handed := []
  collector := .waitEmpty
  consumer := .check

def system (cfg : Config α) : Lts (State α) Label where
  init s := s = initial cfg
  step := step cfg

/-- One TCP source, with numbers as names. -/
def oneSource (name : ℕ → ℕ) : Config ℕ := ⟨1, fun _ => .tcp, fun _ => true, name⟩

/-! ### What a step can do -/

section Sources

variable {s : State α} {i j : ℕ} {x : Source α} {pc : CollectorPc}

@[simp] theorem setSource_sources_self : (s.setSource i x).sources i = x := Function.update_self ..

theorem setSource_sources_ne (h : j ≠ i) : (s.setSource i x).sources j = s.sources j :=
  Function.update_of_ne h ..

/-- The state after a statement of the collector on the source `i`. -/
def State.exchange (s : State α) (i : ℕ) (x : Source α) (pc : CollectorPc) : State α :=
  { s.setSource i x with collector := pc }

@[simp] theorem exchange_sources_self : (s.exchange i x pc).sources i = x := Function.update_self ..

theorem exchange_sources_ne (h : j ≠ i) : (s.exchange i x pc).sources j = s.sources j :=
  Function.update_of_ne h ..

end Sources

/-- The steps of `collect_data_thread`. -/
inductive CollectorMove (cfg : Config α) (s : State α) : CollectorPc → State α → Prop where
  | waitEmpty : 0 < s.emptyReady →
    CollectorMove cfg s .waitEmpty { s with emptyReady := s.emptyReady - 1, collector := .copy 0 }
  | copy (i : ℕ) : i < cfg.sourcesCnt → CollectorMove cfg s (.copy i)
    (s.exchange i { s.sources i with data := some s.data } (.post i))
  | copied (i : ℕ) : cfg.sourcesCnt ≤ i → CollectorMove cfg s (.copy i) { s with collector := .loop }
  | post (i : ℕ) : CollectorMove cfg s (.post i) (s.exchange i
    { s.sources i with emptyReady := (s.sources i).emptyReady + 1 } (.copy (i + 1)))
  | loop : CollectorMove cfg s .loop
    { s with collector := if s.exitFlag then .drain 0 else .waitData 0 }
  | waitData (i : ℕ) : i < cfg.sourcesCnt → 0 < (s.sources i).dataReady →
    CollectorMove cfg s (.waitData i) (s.exchange i
      { s.sources i with dataReady := (s.sources i).dataReady - 1 } (.waitData (i + 1)))
  | gotData (i : ℕ) : cfg.sourcesCnt ≤ i →
    CollectorMove cfg s (.waitData i) { s with collector := .postReady }
  | postReady : CollectorMove cfg s .postReady
    { s with dataReady := s.dataReady + 1, collector := .count 0 }
  | count (i : ℕ) (exit : Bool) : i < cfg.sourcesCnt → (exit = false → s.exitFlag = false) →
    (exit = true → s.exitFlag = true ∨ cfg.sourcesCnt = if (s.sources i).exitFlag then 1 else 0) →
    CollectorMove cfg s (.count i) { s with exitFlag := exit, collector := .count (i + 1) }
  | counted (i : ℕ) : cfg.sourcesCnt ≤ i →
    CollectorMove cfg s (.count i) { s with collector := .checkExit }
  | checkExit : CollectorMove cfg s .checkExit
    { s with collector := if s.exitFlag then .stopAll 0 else .waitEmpty }
  | stopAll (i : ℕ) : i < cfg.sourcesCnt → CollectorMove cfg s (.stopAll i)
    (s.exchange i { s.sources i with exitFlag := true } (.stopAll (i + 1)))
  | stopped (i : ℕ) : cfg.sourcesCnt ≤ i →
    CollectorMove cfg s (.stopAll i) { s with collector := .loop }
  | drain (i : ℕ) : i < cfg.sourcesCnt → CollectorMove cfg s (.drain i)
    (s.exchange i { s.sources i with exitFlag := true } (.drainWait i))
  | drained (i : ℕ) : cfg.sourcesCnt ≤ i →
    CollectorMove cfg s (.drain i) { s with collector := .postLast }
  | drainWait (i : ℕ) : 0 < (s.sources i).dataReady → CollectorMove cfg s (.drainWait i)
    (s.exchange i { s.sources i with dataReady := (s.sources i).dataReady - 1 } (.drain (i + 1)))
  | postLast : CollectorMove cfg s .postLast
    { s with dataReady := s.dataReady + 1, collector := .returned }

theorem collector_move {cfg : Config α} {s s' : State α} (h : collectDataThread cfg s = some s') :
    CollectorMove cfg s s.collector s' := by
  rw [collectDataThread] at h
  generalize s.collector = pc at h
  cases pc with
  | waitEmpty =>
    obtain ⟨hpos, h⟩ := Option.ite_none_right_eq_some.mp h
    cases h
    exact .waitEmpty hpos
  | copy i =>
    simp only at h
    split at h
    · rename_i hi
      cases h
      exact .copy i hi
    · rename_i hi
      cases h
      exact .copied i (Nat.le_of_not_lt hi)
  | post i =>
    cases h
    exact .post i
  | loop =>
    cases h
    exact .loop
  | waitData i =>
    simp only at h
    split at h
    · rename_i hi
      obtain ⟨hpos, h⟩ := Option.ite_none_right_eq_some.mp h
      cases h
      exact .waitData i hi hpos
    · rename_i hi
      cases h
      exact .gotData i (Nat.le_of_not_lt hi)
  | postReady =>
    cases h
    exact .postReady
  | count i =>
    simp only at h
    split at h
    · rename_i hi
      cases h
      refine .count i _ hi (fun he => ?_) fun he => ?_
      all_goals by_cases hcnt : (if (s.sources i).exitFlag then 1 else 0) = cfg.sourcesCnt
      · rw [if_pos hcnt] at he
        cases he
      · rwa [if_neg hcnt] at he
      · exact .inr hcnt.symm
      · rw [if_neg hcnt] at he
        exact .inl he
    · rename_i hi
      cases h
      exact .counted i (Nat.le_of_not_lt hi)
  | checkExit =>
    cases h
    exact .checkExit
  | stopAll i =>
    simp only at h
    split at h
    · rename_i hi
      cases h
      exact .stopAll i hi
    · rename_i hi
      cases h
      exact .stopped i (Nat.le_of_not_lt hi)
  | drain i =>
    simp only at h
    split at h
    · rename_i hi
      cases h
      exact .drain i hi
    · rename_i hi
      cases h
      exact .drained i (Nat.le_of_not_lt hi)
  | drainWait i =>
    obtain ⟨hpos, h⟩ := Option.ite_none_right_eq_some.mp h
    cases h
    exact .drainWait i hpos
  | postLast =>
    cases h
    exact .postLast
  | returned => cases h

end TmkDcl.Collector
