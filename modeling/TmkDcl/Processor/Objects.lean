import TmkDcl.Pipeline.Carried
import TmkDcl.Storage.StorageInterface

/-!
# The objects behind the slots (dclprocessor_old.cpp, storage_interface.cpp)

The slots of the pipeline carry names, and the objects of these names are in a segment that all
processes share. The first module sends the name of the object that the sources have filled and
creates the next one, the middle modules find the object of the name they get, and the last module
frees it (`first_action`, `middle_action`, `last_action` with a collector that uses the segment).
-/

namespace TmkDcl.Processor

open Pipeline (Config Chain Chunk)
open Storage (LocalTime generateNewObjectName)

/-- `strcpy` into a buffer. -/
def strcpy (dst src : Bytes) : Bytes := storeAt dst 0 (src ++ [0])

/-- The statements of `first_action` (`dclprocessor_old.cpp:137-180`). -/
inductive FirstPc where
  | checkExit
  | copy
  /-- `strcpy` has run over the end of the slot -/
  | overrun
  | create
  | find (objName : Bytes)
  | publish (objName : Bytes)
  | ret
  deriving DecidableEq

/-- The statements of `middle_action` and `last_action` (`dclprocessor_old.cpp:183-210`): the object
is found and handed to `exec_object`, then analyzed or freed. -/
inductive ActionPc where
  | find
  | use
  | ret
  deriving DecidableEq

/-- The pipeline, `data` and `exit_flag` of the collector, the names of the objects in the segment, and
the names created and freed so far. -/
structure State where
  pl : Pipeline.State
  data : Bytes
  exitFlag : Bool
  segment : List Bytes
  first : FirstPc
  action : ℕ → ActionPc
  created : List Bytes
  freed : List Bytes

/-- The name in the slot of the job that the child of a module works on. -/
def slotName (pl : Pipeline.State) (i : ℕ) : Bytes := cString (pl.chunk (pl.proc i).cmdOffs)

def State.setAction (x : State) (i : ℕ) (pc : ActionPc) : State :=
  { x with action := Function.update x.action i pc }

/-- `first_action`; `data_ready` is posted at any time. A name that is in the segment is not constructed
twice: `addFrameset` throws for the first source, and the process ends. -/
def firstAction (cfg : Config) (head : ℕ) (x : State) (tm : LocalTime) : Option State :=
  if (x.pl.child head).pc ≠ .action then none else
  match x.first with
  | .checkExit => some { x with first := if x.exitFlag then .ret else .copy }
  | .copy =>
    if cfg.map.dataSize ≤ x.data.length then some { x with first := .overrun } else
    (Pipeline.actionWrite cfg x.pl head
      (strcpy (x.pl.chunk (x.pl.proc head).cmdOffs) x.data)).map fun pl =>
      { x with pl := pl, first := .create }
  | .overrun => none
  | .create =>
    let objName := generateNewObjectName tm
    if objName ∈ x.segment then none
    else some { x with
      segment := x.segment ++ [objName]
      created := x.created ++ [objName]
      first := .find objName }
  | .find objName => some { x with first := .publish objName }
  | .publish objName => some { x with data := objName, first := .ret }
  | .ret => (Pipeline.actionReturn cfg x.pl head 0).map fun pl => { x with pl := pl, first := .checkExit }

/-- `middle_action`; `storage_interface_get_object` does not fail, and without the object
`storage_interface_analyze_object_with_framesets` throws, which ends the process. -/
def middleAction (cfg : Config) (x : State) (i : ℕ) : Option State :=
  if (x.pl.child i).pc ≠ .action then none else
  match x.action i with
  | .find => some (x.setAction i .use)
  | .use => if slotName x.pl i ∈ x.segment then some (x.setAction i .ret) else none
  | .ret => (Pipeline.actionReturn cfg x.pl i 0).map fun pl => { x with pl := pl }.setAction i .find

/-- `last_action`; `storage_interface_free_object` does nothing without the object. -/
def lastAction (cfg : Config) (x : State) (i : ℕ) : Option State :=
  if (x.pl.child i).pc ≠ .action then none else
  match x.action i with
  | .find => some (x.setAction i .use)
  | .use =>
    if slotName x.pl i ∈ x.segment then
      some ({ x with
        segment := x.segment.erase (slotName x.pl i)
        freed := x.freed ++ [slotName x.pl i] }.setAction i .ret)
    else some (x.setAction i .ret)
  | .ret => (Pipeline.actionReturn cfg x.pl i 0).map fun pl => { x with pl := pl }.setAction i .find

/-- The programs of the modules of a chain: the head has `first_action`, the module before the
`finalization_thread` has `last_action`, the modules between them `middle_action`. -/
structure Programs (cfg : Config) (ch : Chain cfg) where
  last : ℕ
  final : ℕ
  next_last : cfg.next last = some final
  method_last : cfg.method last = some .processThread
  method_final : cfg.method final = some .finalizationThread
  action : ∀ i, cfg.action i = true

inductive Label where
  /-- a step of the pipeline outside the actions -/
  | pipeline (a : Pipeline.Label)
  | first (tm : LocalTime)
  | action (i : ℕ)
  /-- `collector->exit_flag` is set -/
  | stopCollector

/-- The step is none of an action. -/
def outside : Pipeline.Label → Bool
  | .write _ _ | .ret _ _ => false
  | _ => true

section System

variable {cfg : Config} {ch : Chain cfg}

def step (p : Programs cfg ch) (x : State) : Label → Option State
  | .pipeline a =>
    if outside a then (Pipeline.step cfg x.pl a).map fun pl => { x with pl := pl } else none
  | .first tm => firstAction cfg ch.head x tm
  | .action i =>
    if i = ch.head then none
    else if i = p.last then lastAction cfg x i else middleAction cfg x i
  | .stopCollector => some { x with exitFlag := true }

/-- `connect_to_pipeline` of the first module has made the segment anew and created the first object
(`dclprocessor_old.cpp:236-250`). -/
def initial (cfg : Config) (tm : LocalTime) : State where
  pl := Pipeline.initial cfg
  data := generateNewObjectName tm
  exitFlag := false
  segment := [generateNewObjectName tm]
  first := .checkExit
  action _ := .find
  created := [generateNewObjectName tm]
  freed := []

def sys (p : Programs cfg ch) : Lts State Label where
  init x := ∃ tm, x = initial cfg tm
  step := step p

/-- The steps by what they do. -/
inductive Move (p : Programs cfg ch) (x : State) : State → Prop
  | pipeline {a : Pipeline.Label} {pl : Pipeline.State} (ha : outside a = true)
      (h : Pipeline.step cfg x.pl a = some pl) : Move p x { x with pl := pl }
  | checkExit (hc : (x.pl.child ch.head).pc = .action) (hf : x.first = .checkExit) :
      Move p x { x with first := if x.exitFlag then .ret else .copy }
  | overrun (hc : (x.pl.child ch.head).pc = .action) (hf : x.first = .copy)
      (hn : cfg.map.dataSize ≤ x.data.length) : Move p x { x with first := .overrun }
  | copy {pl : Pipeline.State} (hc : (x.pl.child ch.head).pc = .action) (hf : x.first = .copy)
      (h : Pipeline.step cfg x.pl (.write ch.head
        (strcpy (x.pl.chunk (x.pl.proc ch.head).cmdOffs) x.data)) = some pl) :
      Move p x { x with pl := pl, first := .create }
  | create (hc : (x.pl.child ch.head).pc = .action) (hf : x.first = .create) (tm : LocalTime)
      (hn : generateNewObjectName tm ∉ x.segment) :
      Move p x { x with
        segment := x.segment ++ [generateNewObjectName tm]
        created := x.created ++ [generateNewObjectName tm]
        first := .find (generateNewObjectName tm) }
  | firstFind {objName : Bytes} (hc : (x.pl.child ch.head).pc = .action)
      (hf : x.first = .find objName) : Move p x { x with first := .publish objName }
  | publish {objName : Bytes} (hc : (x.pl.child ch.head).pc = .action)
      (hf : x.first = .publish objName) : Move p x { x with data := objName, first := .ret }
  | firstRet {pl : Pipeline.State} (hc : (x.pl.child ch.head).pc = .action) (hf : x.first = .ret)
      (h : Pipeline.step cfg x.pl (.ret ch.head 0) = some pl) :
      Move p x { x with pl := pl, first := .checkExit }
  | find {i : ℕ} (hi : i ≠ ch.head) (hc : (x.pl.child i).pc = .action) (hf : x.action i = .find) :
      Move p x (x.setAction i .use)
  | analyze {i : ℕ} (hi : i ≠ ch.head) (hl : i ≠ p.last) (hc : (x.pl.child i).pc = .action)
      (hf : x.action i = .use) (hm : slotName x.pl i ∈ x.segment) : Move p x (x.setAction i .ret)
  | free (hc : (x.pl.child p.last).pc = .action) (hf : x.action p.last = .use)
      (hm : slotName x.pl p.last ∈ x.segment) :
      Move p x ({ x with
        segment := x.segment.erase (slotName x.pl p.last)
        freed := x.freed ++ [slotName x.pl p.last] }.setAction p.last .ret)
  | skip (hc : (x.pl.child p.last).pc = .action) (hf : x.action p.last = .use)
      (hm : slotName x.pl p.last ∉ x.segment) : Move p x (x.setAction p.last .ret)
  | ret {i : ℕ} {pl : Pipeline.State} (hi : i ≠ ch.head) (hc : (x.pl.child i).pc = .action)
      (hf : x.action i = .ret) (h : Pipeline.step cfg x.pl (.ret i 0) = some pl) :
      Move p x ({ x with pl := pl }.setAction i .find)
  | stopCollector : Move p x { x with exitFlag := true }

variable {p : Programs cfg ch} {x x' : State} {i : ℕ}

theorem firstAction_move {tm : LocalTime} (h : firstAction cfg ch.head x tm = some x') :
    Move p x x' := by
  unfold firstAction at h
  split at h
  · cases h
  · rename_i hc
    rw [not_not] at hc
    split at h
    all_goals rename_i hf
    · cases h
      exact .checkExit hc hf
    · split at h
      · cases h
        exact .overrun hc hf (by assumption)
      · obtain ⟨pl, hpl, rfl⟩ := Option.map_eq_some_iff.mp h
        exact .copy hc hf hpl
    · cases h
    · dsimp only at h
      split at h <;> cases h
      exact .create hc hf tm (by assumption)
    · cases h
      exact .firstFind hc hf
    · cases h
      exact .publish hc hf
    · obtain ⟨pl, hpl, rfl⟩ := Option.map_eq_some_iff.mp h
      exact .firstRet hc hf hpl

theorem middleAction_move (hi : i ≠ ch.head) (hl : i ≠ p.last) (h : middleAction cfg x i = some x') :
    Move p x x' := by
  unfold middleAction at h
  split at h
  · cases h
  · rename_i hc
    rw [not_not] at hc
    split at h
    all_goals rename_i hf
    · cases h
      exact .find hi hc hf
    · split at h <;> cases h
      exact .analyze hi hl hc hf (by assumption)
    · obtain ⟨pl, hpl, rfl⟩ := Option.map_eq_some_iff.mp h
      exact .ret hi hc hf hpl

theorem lastAction_move (hi : p.last ≠ ch.head) (h : lastAction cfg x p.last = some x') :
    Move p x x' := by
  unfold lastAction at h
  split at h
  · cases h
  · rename_i hc
    rw [not_not] at hc
    split at h
    all_goals rename_i hf
    · cases h
      exact .find hi hc hf
    · split at h <;> cases h
      · exact .free hc hf (by assumption)
      · exact .skip hc hf (by assumption)
    · obtain ⟨pl, hpl, rfl⟩ := Option.map_eq_some_iff.mp h
      exact .ret hi hc hf hpl

theorem step_move {a : Label} (h : step p x a = some x') : Move p x x' := by
  cases a with
  | pipeline a =>
    simp only [step] at h
    split at h
    · obtain ⟨pl, hpl, rfl⟩ := Option.map_eq_some_iff.mp h
      exact .pipeline (by assumption) hpl
    · cases h
  | first tm => exact firstAction_move h
  | action i =>
    simp only [step] at h
    split at h
    · cases h
    · split at h
      · rename_i hi hl
        subst hl
        exact lastAction_move hi h
      · exact middleAction_move (by assumption) (by assumption) h
  | stopCollector =>
    cases h
    exact .stopCollector

/-- The pipeline of a step takes a step in which only the head writes, or none. -/
theorem Move.pipeline_step (h : Move p x x') : x'.pl = x.pl ∨
    ∃ a, Pipeline.carries ch.head x.pl a ∧ Pipeline.step cfg x.pl a = some x'.pl := by
  cases h
  case pipeline a pl ha h =>
    refine Or.inr ⟨a, ?_, h⟩
    cases a with
    | write | ret => cases ha
    | _ => trivial
  case copy h => exact Or.inr ⟨.write ch.head _, rfl, h⟩
  case firstRet h => exact Or.inr ⟨.ret ch.head 0, rfl, h⟩
  case ret i _ _ _ _ h => exact Or.inr ⟨.ret i 0, rfl, h⟩
  all_goals exact Or.inl rfl

/-- The pipeline under the objects is a pipeline in which only the head writes and nothing is dropped. -/
theorem reach_pipeline {ok : State → Label → Prop} (h : (sys p).Reach ok x) :
    (Pipeline.sys cfg).Reach (Pipeline.carries ch.head) x.pl := by
  induction h with
  | init hi =>
    obtain ⟨tm, rfl⟩ := hi
    exact .init rfl
  | step _ _ hs ih =>
    rcases (step_move hs).pipeline_step with he | ⟨a, ha, hpl⟩
    · exact he ▸ ih
    · exact .step ih ha hpl

end System

end TmkDcl.Processor
