import Mathlib.Data.Int.Notation
import Mathlib.Logic.Function.Basic
import TmkDcl.Raising
import TmkDcl.Spinnaker.CameraConfig

/-!
# The settings of the cameras (tools/spinnaker: configureCameras.cpp, captureManager.cpp)

The properties of the configuration are written to the nodes of the cameras, one after the other. A conversion
or a call of the SDK that fails ends the program with an exception.
-/

namespace TmkDcl.Spinnaker

open Raising

/-- What is written to a node of a camera. -/
inductive Setting (F : Type) where
  | enumeration (entry : String)
  | float (value : F)
  | bool (value : Bool)
  | int (value : ℤ)
  deriving DecidableEq

/-- `std::stof` and `std::stoi`, which cameras there are, and which settings their nodes take. -/
structure Sdk (F : Type) where
  stof : String → Option F
  stoi : String → Option ℤ
  present : ℕ → Bool
  accepts : ℕ → String → Setting F → Bool

inductive CameraError where
  | invalidArgument
  | logicError
  | spinnaker

/-- The nodes that have been written, by serial and name, the state of the cameras, and `pCams`. -/
structure Devices (F : Type) where
  written : ℕ → String → Option (Setting F)
  initialized : ℕ → Bool
  streaming : ℕ → Bool
  pCams : List ℕ

def stob (s : String) : Except CameraError Bool :=
  if s = "true" then .ok true
  else if s = "false" then .ok false
  else .error .logicError

variable {F D : Type}

def Devices.write (s : Devices F) (serial : ℕ) (name : String) (v : Setting F) : Devices F :=
  { s with written := Function.update s.written serial (Function.update (s.written serial) name (some v)) }

section Code

variable (sdk : Sdk F)

/-- The setting of a property, unless its type is unknown or its value cannot be converted. -/
def settingOf (prop : Property) : Option (Setting F) :=
  if prop.type = "enum" then some (.enumeration prop.value)
  else if prop.type = "float" then (sdk.stof prop.value).map .float
  else if prop.type = "bool" then (stob prop.value).toOption.map .bool
  else if prop.type = "int" then (sdk.stoi prop.value).map .int
  else none

/-- The last setting for the node. -/
def lastSetting (props : List Property) (name : String) : Option (Setting F) :=
  props.reverse.findSome? fun prop => if prop.name = name then settingOf sdk prop else none

section Returns

variable {sdk} {s t : Devices F} {serial : ℕ} {x : Unit}

end Returns

/-! ### What the properties leave of the devices -/

section Applied

variable {s : Devices F} {serial : ℕ}

end Applied

/-! ### The cameras that get ready -/

section Ready

variable {sdk} {s t : Devices F} {x : Unit} {serial : ℕ} {name : String}

end Ready

/-! ### From the document to the cameras -/

section Document

variable {sdk} {conv : Translator D} {json : Ptree} {s t : Devices F} {x : Unit}
  {cams : List CameraConfig}

/-- The node of the first camera of the document with the serial. -/
def firstCamera (conv : Translator D) (json : Ptree) (serial : ℕ) : Option Ptree :=
  ((Ptree.items "CamerasList" json).find? fun c =>
    Ptree.get conv.toUInt64 "serial" 0 c.2 = serial).map Prod.snd

/-- The cameras of the document are ready: each node of a camera has the last setting of the camera's own
properties for it, else the last one of the default properties, and no other node is written. -/
structure Ready (sdk : Sdk F) (conv : Translator D) (json : Ptree) (s t : Devices F) : Prop where
  listed : ∀ serial c, firstCamera conv json serial = some c →
    t.initialized serial = true ∧ t.streaming serial = true
  settings : ∀ serial c, firstCamera conv json serial = some c → s.initialized serial = false →
    ∀ name, t.written serial name = ((lastSetting sdk (propertiesOf conv "Properties" c) name).or
      (lastSetting sdk (propertiesOf conv "DefaultProperties" json) name)).or (s.written serial name)
  others : ∀ serial, firstCamera conv json serial = none ∨ s.initialized serial = true →
    ∀ name, t.written serial name = s.written serial name

end Document

def decimal (s : String) : Option ℕ :=
  if s.toList.all Char.isDigit then some (s.toList.foldl (fun n c => 10 * n + (c.toNat - 48)) 0) else none

def digits : Translator ℕ :=
  ⟨fun s => if s = "true" then some true else if s = "false" then some false else none, decimal, decimal⟩

def unused : Devices ℕ := ⟨fun _ _ => none, fun _ => false, fun _ => false, []⟩

section Configure

variable {sdk} {s t : Devices F} {x : Unit} {b : Bool} {cams : List CameraConfig}

end Configure

end Code

end TmkDcl.Spinnaker
