import TmkDcl.Trees

/-!
# The configuration of the cameras (tools/spinnaker: visitors.cpp, configparser.h, configparser.cpp)

`JsonLoader` walks over the tree that `read_json` makes of the file, with a stack of pointers to its nodes;
what it does not find it adds as an empty node. A `std::string` is a `String` with one character for each of
its bytes.
-/

namespace TmkDcl.Spinnaker

open Tree.Program

abbrev Ptree := Tree String String

def emptyNode : Ptree := .node "" []

/-- The conversions of `ptree::get`, which fail on texts that do not stand for a value. -/
structure Translator (D : Type) where
  toBool : String → Option Bool
  toUInt64 : String → Option ℕ
  toDouble : String → Option D

/-- `class Property` (`configparser.h`). -/
structure Property where
  name : String
  type : String
  value : String
  edit : Bool
  minValue : String
  maxValue : String
  increment : String
  deriving DecidableEq

structure CameraConfig where
  name : String
  sdk : String
  serial : ℕ
  properties : List Property
  deriving DecidableEq

structure TriggerConfig (D : Type) where
  expectedFrequency : D
  useSoftWareTrigger : Bool
  serial : ℕ
  sdk : String
  useHardWareTrigger : Bool
  deviceName : String

/-! ### The loader -/

abbrev JsonLoader (α : Type) := Tree.Program String String α

/-- `ptree::get` with a default. -/
def Ptree.get {α : Type} (convert : String → Option α) (name : String) (default : α) (t : Ptree) : α :=
  ((t.child? name).bind fun c => convert c.data).getD default

/-- `visit(T& value, std::string name, T _default)`. -/
def visitValue {α : Type} (convert : String → Option α) (name : String) (default : α) : JsonLoader α :=
  read (Ptree.get convert name default)

/-- The keys that the loops over the children leave out. -/
def hidden (key : String) : Bool := key.toList.head? = some '!'

/-- `visit(std::vector<T>& value, std::string name)`; the ones for `Property` and `CameraConfig` also set the
name of the element, which is the key. -/
def visitVector {α : Type} (accept : String → JsonLoader α) (name : String) : JsonLoader (List α) :=
  within name emptyNode (forChildren hidden accept)

section Accept

variable {D : Type} (conv : Translator D)

def Property.accept (key : String) : JsonLoader Property := do
  let type ← visitValue some "type" "none"
  let value ← visitValue some "value" "none"
  let edit ← visitValue conv.toBool "edit" false
  let minValue ← visitValue some "minValue" "sdk"
  let maxValue ← visitValue some "maxValue" "sdk"
  let increment ← visitValue some "increment" "sdk"
  pure ⟨key, type, value, edit, minValue, maxValue, increment⟩

def CameraConfig.accept (key : String) : JsonLoader CameraConfig := do
  let serial ← visitValue conv.toUInt64 "serial" 0
  let sdk ← visitValue some "SDK" "none"
  let properties ← visitVector (Property.accept conv) "Properties"
  pure ⟨key, sdk, serial, properties⟩

def TriggerConfig.accept [One D] (_key : String) : JsonLoader (TriggerConfig D) := do
  let expectedFrequency ← visitValue conv.toDouble "expectedFrequency" 1
  let useSoftWareTrigger ← visitValue conv.toBool "useSoftWareTrigger" true
  let serial ← visitValue conv.toUInt64 "serial" 0
  let sdk ← visitValue some "sdk" "none"
  let useHardWareTrigger ← visitValue conv.toBool "useHardWareTrigger" false
  let deviceName ← visitValue some "deviceName" "none"
  pure ⟨expectedFrequency, useSoftWareTrigger, serial, sdk, useHardWareTrigger, deviceName⟩

/-- `ConfigParser::getCamerasList` behind `read_json`. -/
def getCamerasList : JsonLoader (List CameraConfig) := do
  let defaults ← visitVector (Property.accept conv) "DefaultProperties"
  let configs ← visitVector (CameraConfig.accept conv) "CamerasList"
  pure (configs.map fun c => { c with properties := defaults ++ c.properties })

def getTriggerList [One D] : JsonLoader (List (TriggerConfig D)) :=
  visitVector (TriggerConfig.accept conv) "TriggerList"

/-! ### What the document says -/

/-- The children of the first child with the name, but for the hidden ones. -/
def Ptree.items (name : String) (t : Ptree) : List (String × Ptree) :=
  ((t.child? name).getD emptyNode).children.filter fun c => !hidden c.1

def propertyOf (key : String) (t : Ptree) : Property where
  name := key
  type := Ptree.get some "type" "none" t
  value := Ptree.get some "value" "none" t
  edit := Ptree.get conv.toBool "edit" false t
  minValue := Ptree.get some "minValue" "sdk" t
  maxValue := Ptree.get some "maxValue" "sdk" t
  increment := Ptree.get some "increment" "sdk" t

def propertiesOf (name : String) (t : Ptree) : List Property :=
  (Ptree.items name t).map fun c => propertyOf conv c.1 c.2

def cameraOf (defaults : List Property) (key : String) (t : Ptree) : CameraConfig where
  name := key
  sdk := Ptree.get some "SDK" "none" t
  serial := Ptree.get conv.toUInt64 "serial" 0 t
  properties := defaults ++ propertiesOf conv "Properties" t

def camerasOf (json : Ptree) : List CameraConfig :=
  (Ptree.items "CamerasList" json).map fun c =>
    cameraOf conv (propertiesOf conv "DefaultProperties" json) c.1 c.2

def triggerOf [One D] (t : Ptree) : TriggerConfig D where
  expectedFrequency := Ptree.get conv.toDouble "expectedFrequency" 1 t
  useSoftWareTrigger := Ptree.get conv.toBool "useSoftWareTrigger" true t
  serial := Ptree.get conv.toUInt64 "serial" 0 t
  sdk := Ptree.get some "sdk" "none" t
  useHardWareTrigger := Ptree.get conv.toBool "useHardWareTrigger" false t
  deviceName := Ptree.get some "deviceName" "none" t

def triggersOf [One D] (json : Ptree) : List (TriggerConfig D) :=
  (Ptree.items "TriggerList" json).map fun c => triggerOf conv c.2

/-- The document with an empty node in each place where the loader looks for one in vain. -/
def completed (json : Ptree) : Ptree :=
  Tree.modifyChild "CamerasList"
    (fun t => .node t.data (t.children.map (walked hidden fun _ => Tree.ensure "Properties" emptyNode)))
    (Tree.ensure "CamerasList" emptyNode (Tree.ensure "DefaultProperties" emptyNode json))

/-! ### The loader reads the document -/

section Loader

variable {α : Type} {accept : String → JsonLoader α} {r : String → Ptree → α} {w : String → Ptree → Ptree}

theorem focused_visitVector (h : ∀ key, Focused (accept key) (r key) (w key)) (name : String) :
    Focused (visitVector accept name) (fun t => (Ptree.items name t).map fun c => r c.1 c.2)
      (Tree.modifyChild name (fun t => .node t.data (t.children.map (walked hidden w))) ∘
        Tree.ensure name emptyNode) :=
  focused_within (focused_forChildren h)

/-- The first push is on an empty stack. -/
theorem visitVector_root (h : ∀ key, Focused (accept key) (r key) (w key)) (name : String)
    (json : Ptree) : visitVector accept name ⟨json, []⟩ =
      some ((Ptree.items name json).map fun c => r c.1 c.2,
        ⟨Tree.modifyChild name (fun t => .node t.data (t.children.map (walked hidden w)))
          (Tree.ensure name emptyNode json), []⟩) :=
  run_within (focused_forChildren h) rfl rfl

theorem walked_id : walked hidden (fun _ t => t) = (id : String × Ptree → String × Ptree) := by
  funext c
  rw [walked]
  split <;> rfl

end Loader

theorem focused_property (key : String) :
    Focused (Property.accept conv key) (propertyOf conv key) fun t => t := by
  apply Focused.congr
  case hm =>
    unfold Property.accept visitValue
    exact Focused.after_read fun type => Focused.after_read fun value => Focused.after_read fun edit =>
      Focused.after_read fun minValue => Focused.after_read fun maxValue =>
        Focused.after_read fun increment => focused_pure _
  all_goals
    intro t
    rfl

/-- What is left of the document is the same, as an element that is a `Property` only reads. -/
theorem modifyChild_walked_id (name : String) (t : Ptree) :
    Tree.modifyChild name (fun t => .node t.data (t.children.map (walked hidden fun _ t => t))) t = t := by
  have hwrite : (fun t : Ptree => Tree.node t.data (t.children.map (walked hidden fun _ t => t))) =
      fun t => t := by
    funext t
    rw [walked_id, List.map_id, Tree.node_data_children]
  rw [hwrite, Tree.modifyChild_id]

theorem focused_properties (name : String) :
    Focused (visitVector (Property.accept conv) name) (propertiesOf conv name)
      (Tree.ensure name emptyNode) :=
  (focused_visitVector (focused_property conv) name).congr (fun _ => rfl) fun _ =>
    modifyChild_walked_id name _

theorem focused_camera (key : String) :
    Focused (CameraConfig.accept conv key) (cameraOf conv [] key) (Tree.ensure "Properties" emptyNode) := by
  apply Focused.congr
  case hm =>
    unfold CameraConfig.accept visitValue
    exact Focused.after_read fun serial => Focused.after_read fun sdk =>
      (focused_properties conv "Properties").bind fun properties => focused_pure _
  all_goals
    intro t
    rfl

theorem focused_trigger [One D] (key : String) :
    Focused (TriggerConfig.accept conv key) (triggerOf conv) fun t => t := by
  apply Focused.congr
  case hm =>
    unfold TriggerConfig.accept visitValue
    exact Focused.after_read fun expectedFrequency => Focused.after_read fun useSoftWareTrigger =>
      Focused.after_read fun serial => Focused.after_read fun sdk =>
        Focused.after_read fun useHardWareTrigger => Focused.after_read fun deviceName => focused_pure _
  all_goals
    intro t
    rfl

/-! ### Added nodes say nothing -/

@[simp] theorem items_ensure (name : String) (t : Ptree) :
    Ptree.items name (Tree.ensure name emptyNode t) = Ptree.items name t := by
  rw [Ptree.items, Tree.child?_ensure, Option.getD_some, Ptree.items]

theorem items_ensure_of_ne {name other : String} (h : other ≠ name) (t : Ptree) :
    Ptree.items other (Tree.ensure name emptyNode t) = Ptree.items other t := by
  rw [Ptree.items, Tree.child?_ensure_of_ne h, Ptree.items]

theorem get_ensure_of_ne {α : Type} {convert : String → Option α} {name other : String} {default : α}
    (h : other ≠ name) (t : Ptree) :
    Ptree.get convert other default (Tree.ensure name emptyNode t) = Ptree.get convert other default t := by
  rw [Ptree.get, Tree.child?_ensure_of_ne h, Ptree.get]

theorem cameraOf_ensure (defaults : List Property) (key : String) (t : Ptree) :
    cameraOf conv defaults key (Tree.ensure "Properties" emptyNode t) = cameraOf conv defaults key t := by
  have hsdk : "SDK" ≠ "Properties" := by decide
  have hserial : "serial" ≠ "Properties" := by decide
  rw [cameraOf, cameraOf, get_ensure_of_ne hsdk, get_ensure_of_ne hserial, propertiesOf, items_ensure,
    propertiesOf]

theorem items_completed (json : Ptree) : Ptree.items "CamerasList" (completed json) =
    (Ptree.items "CamerasList" json).map fun c => (c.1, Tree.ensure "Properties" emptyNode c.2) := by
  have hne : "CamerasList" ≠ "DefaultProperties" := by decide
  rw [Ptree.items, completed, Tree.child?_modifyChild, Tree.child?_ensure, Tree.child?_ensure_of_ne hne,
    Option.map_some, Option.getD_some, Tree.children_node, Ptree.items]
  generalize ((Tree.child? "CamerasList" json).getD emptyNode).children = cs
  induction cs with
  | nil => rfl
  | cons c cs ih =>
    cases hhidden : hidden c.1 <;> simp [walked, hhidden, ih]

theorem camerasOf_completed (json : Ptree) : camerasOf conv (completed json) = camerasOf conv json := by
  have hne : "DefaultProperties" ≠ "CamerasList" := by decide
  have hdefaults : propertiesOf conv "DefaultProperties" (completed json) =
      propertiesOf conv "DefaultProperties" json := by
    rw [propertiesOf, propertiesOf, Ptree.items, completed, Tree.child?_modifyChild_of_ne hne,
      Tree.child?_ensure_of_ne hne, Tree.child?_ensure, Option.getD_some, Ptree.items]
  rw [camerasOf, items_completed, List.map_map, hdefaults, camerasOf]
  refine List.map_congr_left fun c _ => ?_
  exact cameraOf_ensure conv _ c.1 c.2

/-! ### The lists of the document -/

theorem getCamerasList_eq (json : Ptree) :
    getCamerasList conv ⟨json, []⟩ = some (camerasOf conv json, ⟨completed json, []⟩) := by
  have hne : "CamerasList" ≠ "DefaultProperties" := by decide
  have hdefaults := visitVector_root (focused_property conv) "DefaultProperties" json
  have hcameras := visitVector_root (focused_camera conv) "CamerasList"
    (Tree.ensure "DefaultProperties" emptyNode json)
  rw [modifyChild_walked_id] at hdefaults
  rw [items_ensure_of_ne hne] at hcameras
  rw [getCamerasList, run_bind hdefaults, run_bind hcameras]
  show some (((Ptree.items "CamerasList" json).map _).map _, _) = _
  rw [List.map_map]
  rfl

theorem getTriggerList_eq [One D] (json : Ptree) : getTriggerList conv ⟨json, []⟩ =
    some (triggersOf conv json, ⟨Tree.ensure "TriggerList" emptyNode json, []⟩) := by
  have htriggers := visitVector_root (focused_trigger conv) "TriggerList" json
  rwa [modifyChild_walked_id] at htriggers

/-- For every document the loader never takes the top of an empty stack nor follows a pointer out of the
tree. It returns what the document says, leaves the stack empty, and what it adds to the tree says nothing:
who reads the cameras or the triggers again gets the same. -/
theorem lists_read [One D] (json : Ptree) :
    getCamerasList conv ⟨json, []⟩ = some (camerasOf conv json, ⟨completed json, []⟩) ∧
      getCamerasList conv ⟨completed json, []⟩ =
        some (camerasOf conv json, ⟨completed (completed json), []⟩) ∧
      getTriggerList conv ⟨json, []⟩ =
        some (triggersOf conv json, ⟨Tree.ensure "TriggerList" emptyNode json, []⟩) ∧
      getTriggerList conv ⟨Tree.ensure "TriggerList" emptyNode json, []⟩ =
        some (triggersOf conv json,
          ⟨Tree.ensure "TriggerList" emptyNode (Tree.ensure "TriggerList" emptyNode json), []⟩) := by
  refine ⟨getCamerasList_eq conv json, ?_, getTriggerList_eq conv json, ?_⟩
  · rw [getCamerasList_eq, camerasOf_completed]
  · rw [getTriggerList_eq, triggersOf, items_ensure, triggersOf]

end Accept

end TmkDcl.Spinnaker
