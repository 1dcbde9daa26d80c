import Mathlib.Logic.Function.Basic
import TmkDcl.Storage.ObjectDescriptor

/-!
# The data of a frame as JSON (FrameData.cpp, IObject.h)

The objects here are flat and have numbers with a fraction among their values, so that they are
maps from keys to values. A document that is no object has no key. The list of defects is in no
document.
-/

namespace TmkDcl.Storage.FrameDataJson

open TmkDcl (JsonError)

/-- A value of `nlohmann::json`; `nested` is an array or an object. -/
inductive Value where
  | null
  | bool (b : Bool)
  | integer (n : ℤ)
  | float (x : Float)
  | string (s : Bytes)
  | nested

abbrev Fields := String → Option Value

def setField (key : String) (value : Value) (fields : Fields) : Fields :=
  Function.update fields key (some value)

def contains (fields : Fields) (key : String) : Bool := (fields key).isSome

/-- `operator[]` of a constant object. Without the key it is undefined, or an assertion fails;
`absent` is what comes of it. -/
def field (absent : Except JsonError Value) (fields : Fields) (key : String) :
    Except JsonError Value :=
  match fields key with
  | some value => .ok value
  | none => absent

namespace Value

def getString : Value → Except JsonError Bytes
  | .string s => .ok s
  | _ => .error .type

def getBool : Value → Except JsonError Bool
  | .bool b => .ok b
  | _ => .error .type

/-- `get<int>()`, before the conversion to the width. -/
def getInt : Value → Except JsonError ℤ
  | .integer n => .ok n
  | .bool b => .ok b.toNat
  | .float x => .ok x.toInt64.toInt
  | _ => .error .type

/-- `get` of a type with 64 bits, which takes no boolean. -/
def getInt64 : Value → Except JsonError ℤ
  | .integer n => .ok n
  | .float x => .ok x.toInt64.toInt
  | _ => .error .type

def getDouble : Value → Except JsonError Float
  | .float x => .ok x
  | .integer n => .ok (Float.ofInt n)
  | _ => .error .type

end Value

/-- The times are in nanoseconds since the epoch. -/
structure FrameData where
  id : ObjectID
  storageType : StorageType
  condition : Bool
  lastDetection : ℤ
  diameter : Float
  length : Float
  diameter1 : Float
  diameter2 : Float
  diameter3 : Float
  number : Bytes

/-- `IObject::toJson`. -/
def objectToJson (id : ObjectID) (storageType : StorageType) : Fields :=
  let ret := setField "id" (.integer id.id.toNat) fun _ => none
  let ret := setField "name" (.string id.name) ret
  setField "storage_type" (.integer storageType.value.toInt) ret

/-- `FrameData::toJsonDB`, where `text` formats the local time of a second. -/
def FrameData.toJsonDB (text : ℤ → Bytes) (x : FrameData) (parentId : ObjectID) : Fields :=
  let ret := objectToJson x.id x.storageType
  let ret := setField "condition" (.bool x.condition) ret
  let ret := setField "last_detection" (.string (text (seconds x.lastDetection))) ret
  let ret := setField "diameter" (.float x.diameter) ret
  let ret := setField "length" (.float x.length) ret
  let ret := setField "diameter1" (.float x.diameter1) ret
  let ret := setField "diameter2" (.float x.diameter2) ret
  let ret := setField "diameter3" (.float x.diameter3) ret
  let ret := setField "number" (.string x.number) ret
  if parentId.id ≠ impossibleId then setField "frameset_id" (.integer parentId.id.toNat) ret else ret

def FrameData.toJson (text : ℤ → Bytes) (x : FrameData) : Fields := x.toJsonDB text (.ofName [])

/-- `IObject::fromJson`; without the three fields an error is logged and nothing changes. -/
def objectFromJson (absent : Except JsonError Value) (json : Fields) (id : ObjectID)
    (storageType : StorageType) : Except JsonError (ObjectID × StorageType) :=
  if !contains json "id" || !contains json "name" || !contains json "storage_type" then
    .ok (id, storageType)
  else do
    let name ← (← field absent json "name").getString
    let n ← (← field absent json "id").getInt64
    let type ← (← field absent json "storage_type").getInt
    .ok ({ ObjectID.ofName name with id := UInt64.ofInt n }, ⟨Int32.ofInt type⟩)

/-- `FrameData::fromJsonDB`. `std::get_time` makes a manipulator that reads no stream, and `mktime`
is what becomes of the `tm` without a value. -/
def FrameData.fromJsonDB (absent : Except JsonError Value) (mktime : ℤ) (x : FrameData)
    (json : Fields) : Except JsonError FrameData := do
  let (id, storageType) ← objectFromJson absent json x.id x.storageType
  if !contains json "condition" || !contains json "last_detection" || !contains json "diameter" ||
      !contains json "length" || !contains json "diameter1" || !contains json "diameter2" ||
      !contains json "diameter3" then
    return { x with id := id, storageType := storageType }
  let _ ← (← field absent json "datetime").getString
  let condition ← (← field absent json "condition").getBool
  let diameter ← (← field absent json "diameter").getDouble
  let length ← (← field absent json "length").getDouble
  let diameter1 ← (← field absent json "diameter1").getDouble
  let diameter2 ← (← field absent json "diameter2").getDouble
  let diameter3 ← (← field absent json "diameter3").getDouble
  let number ← (← field absent json "diameter3").getString
  return ⟨id, storageType, condition, mktime * 1000000000, diameter, length, diameter1, diameter2,
    diameter3, number⟩

/-- Every field that is in the document is as it was, the time to the second. -/
structure Restored (x y : FrameData) : Prop where
  id : y.id = x.id
  storageType : y.storageType = x.storageType
  condition : y.condition = x.condition
  lastDetection : seconds y.lastDetection = seconds x.lastDetection
  diameter : y.diameter = x.diameter
  length : y.length = x.length
  diameter1 : y.diameter1 = x.diameter1
  diameter2 : y.diameter2 = x.diameter2
  diameter3 : y.diameter3 = x.diameter3
  number : y.number = x.number

section Reading

variable {absent : Except JsonError Value} {text : ℤ → Bytes} {fields : Fields}

@[simp] theorem setField_self (key : String) (value : Value) :
    setField key value fields key = some value := Function.update_self ..

theorem setField_of_ne {key other : String} (h : other ≠ key) (value : Value) :
    setField key value fields other = fields other := Function.update_of_ne h ..

theorem field_of_some {key : String} {value : Value} (h : fields key = some value) :
    field absent fields key = .ok value := by
  unfold field
  rw [h]

theorem contains_of_some {key : String} {value : Value} (h : fields key = some value) :
    contains fields key = true := by
  unfold contains
  rw [h]
  rfl

/-- What a document has for each key that is asked for. -/
structure Written (text : ℤ → Bytes) (x : FrameData) (fields : Fields) : Prop where
  id : fields "id" = some (.integer x.id.id.toNat)
  name : fields "name" = some (.string x.id.name)
  storageType : fields "storage_type" = some (.integer x.storageType.value.toInt)
  condition : fields "condition" = some (.bool x.condition)
  lastDetection : fields "last_detection" = some (.string (text (seconds x.lastDetection)))
  diameter : fields "diameter" = some (.float x.diameter)
  length : fields "length" = some (.float x.length)
  diameter1 : fields "diameter1" = some (.float x.diameter1)
  diameter2 : fields "diameter2" = some (.float x.diameter2)
  diameter3 : fields "diameter3" = some (.float x.diameter3)
  number : fields "number" = some (.string x.number)
  datetime : fields "datetime" = none

theorem written_toJson (text : ℤ → Bytes) (x : FrameData) : Written text x (x.toJson text) := by
  have hparent : ¬ (ObjectID.ofName []).id ≠ impossibleId := fun h => h rfl
  constructor <;>
    simp [FrameData.toJson, FrameData.toJsonDB, objectToJson, if_neg hparent, setField_of_ne]

theorem objectFromJson_written {x fresh : FrameData} (h : Written text x fields) :
    objectFromJson absent fields fresh.id fresh.storageType =
      .ok ({ ObjectID.ofName x.id.name with id := x.id.id }, x.storageType) := by
  unfold objectFromJson
  rw [contains_of_some h.id, contains_of_some h.name, contains_of_some h.storageType,
    field_of_some h.id, field_of_some h.name, field_of_some h.storageType]
  have hid : UInt64.ofInt (x.id.id.toNat : ℤ) = x.id.id := by
    have hmod : ((x.id.id.toNat : ℤ) % 2 ^ 64).toNat = x.id.id.toNat := by
      have hlt := x.id.id.toNat_lt
      omega
    rw [UInt64.ofInt, hmod, UInt64.ofNat_toNat]
  show Except.ok ((_, _) : ObjectID × StorageType) = _
  rw [hid, Int32.ofInt_toInt]

/-- Reading a document that was written raises an exception: the key of the time is one that is
not written, and the number is read from a key that has a floating-point value. -/
theorem fromJson_written (absent : Except JsonError Value) (mktime : ℤ) {x fresh : FrameData}
    (h : Written text x fields) : ∃ e, fresh.fromJsonDB absent mktime fields = .error e := by
  unfold FrameData.fromJsonDB
  rw [objectFromJson_written h, contains_of_some h.condition, contains_of_some h.lastDetection,
    contains_of_some h.diameter, contains_of_some h.length, contains_of_some h.diameter1,
    contains_of_some h.diameter2, contains_of_some h.diameter3, field_of_some h.condition,
    field_of_some h.diameter, field_of_some h.length, field_of_some h.diameter1,
    field_of_some h.diameter2, field_of_some h.diameter3]
  unfold field
  rw [h.datetime]
  cases absent with
  | error e => exact ⟨e, rfl⟩
  | ok value =>
    cases value with
    | string s => exact ⟨.type, rfl⟩
    | _ => exact ⟨.type, rfl⟩

end Reading

/-- No value comes back from what is written of it, whatever the access to a missing key gives. -/
theorem frameData_never_restored (absent : Except JsonError Value) (mktime : ℤ) (text : ℤ → Bytes)
    (x fresh : FrameData) :
    ¬ ∃ y, fresh.fromJsonDB absent mktime (x.toJson text) = .ok y ∧ Restored x y := by
  intro h
  obtain ⟨y, hy, -⟩ := h
  obtain ⟨e, he⟩ := fromJson_written absent mktime (written_toJson text x)
  rw [he] at hy
  cases hy

/-- A mandrel with a number that has been read. -/
def mandrel : FrameData :=
  ⟨⟨literal "mandrel", 7⟩, .longTerm, true, 1619085600000000000, 80.5, 0, 0, 0, 0, literal "17"⟩

theorem mandrel_not_restored :
    ¬ ∃ y, FrameData.fromJsonDB (.error .missing) 0
      ⟨.ofName [], .noSave, false, 0, 0, 0, 0, 0, 0, []⟩
      (mandrel.toJson fun _ => literal "2021-04-22_10:00:00") = .ok y ∧ Restored mandrel y := by
  intro h
  obtain ⟨y, hy, -⟩ := h
  obtain ⟨e, he⟩ := fromJson_written (.error .missing) 0
    (written_toJson (fun _ => literal "2021-04-22_10:00:00") mandrel)
  rw [he] at hy
  cases hy

end TmkDcl.Storage.FrameDataJson
