import TmkDcl.Bytes
import TmkDcl.Json

/-!
# Objects, framesets and frames (libstorage: IObject.h, Frame.cpp, Frameset.cpp, ObjectDescriptor.cpp)

An object has its framesets, and a frameset its frames, in a map ordered by `strcmp` on the names,
which `Bytes` are compared with here. The members that the JSON text does not carry (the image,
the object data) are left out.

Two members are read before they are written. `Frameset::Frameset` passes its own `storageType` to
its base, and `Frame::fromJsonDB` makes a `std::get_time` manipulator that reads no stream, so
that `mktime` gets an uninitialised `tm`. What is found there is `Memory`.
-/

namespace TmkDcl.Storage

open TmkDcl (Json JsonError)

/-- `StorageType`: any `int` can be found in one. -/
structure StorageType where
  value : Int32
  deriving DecidableEq

namespace StorageType

def noSave : StorageType := ⟨0⟩
def shortTerm : StorageType := ⟨1⟩
def longTerm : StorageType := ⟨2⟩

end StorageType

def impossibleId : UInt64 := 0

def maxNameLength : ℕ := 71

structure ObjectID where
  name : Bytes
  id : UInt64
  deriving DecidableEq

/-- `ObjectID(name)`: the C string in the clipped array. -/
def ObjectID.ofName (name : Bytes) : ObjectID := ⟨cString (name.take maxNameLength), impossibleId⟩

/-- `map<ObjectID, .., std::less<ObjectID>>`, by the names. -/
abbrev NameMap (α : Type) := Std.ExtTreeMap Bytes α compare

/-- The time is in nanoseconds since the epoch. -/
structure Frame where
  id : ObjectID
  storageType : StorageType
  timeStamp : ℤ
  sequenceNum : Int32
  source : Int32
  deriving DecidableEq

structure Frameset where
  id : ObjectID
  storageType : StorageType
  frames : NameMap Frame

structure ObjectDescriptor where
  id : ObjectID
  storageType : StorageType
  framesets : NameMap Frameset

/-- What uninitialised members hold: `storageType` of the frameset with a name, the members of a
new frame, and the time that `mktime` makes of the `tm` for the frame of a frameset. -/
structure Memory where
  framesetType : Bytes → StorageType
  frameInt : Int32
  mktime : Bytes → Bytes → ℤ

/-! ### Construction -/

/-- The constructor that `fromJson` uses. -/
def Frame.blank (mem : Memory) (name : Bytes) : Frame :=
  ⟨.ofName name, .noSave, 0, mem.frameInt, mem.frameInt⟩

/-- `Frameset::Frameset`; the argument for the storage type is not used. -/
def Frameset.new (mem : Memory) (name : Bytes) (_storageType : StorageType) : Frameset :=
  ⟨.ofName name, mem.framesetType name, ∅⟩

def ObjectDescriptor.new (name : Bytes) (storageType : StorageType) : ObjectDescriptor :=
  ⟨.ofName name, storageType, ∅⟩

/-- `Frameset::addFrame`: `emplace` keeps what is there. -/
def Frameset.addFrame (fs : Frameset) (name : Bytes) (frame : Frame) : Frameset :=
  { fs with frames := fs.frames.insertIfNew (ObjectID.ofName name).name frame }

def ObjectDescriptor.addFrameset (mem : Memory) (obj : ObjectDescriptor) (name : Bytes)
    (storageType : StorageType) : ObjectDescriptor :=
  { obj with
    framesets := obj.framesets.insertIfNew (ObjectID.ofName name).name (.new mem name storageType) }

/-! ### `toJson` -/

/-- `IObject::toJson`. -/
def objectFields (id : ObjectID) (storageType : StorageType) : List (String × Json Bytes) :=
  Json.setField "storage_type" (.number storageType.value.toInt)
    (Json.setField "name" (.string id.name) (Json.setField "id" (.number id.id.toNat) []))

/-- `system_clock::to_time_t`. -/
def seconds (timeStamp : ℤ) : ℤ := timeStamp.tdiv 1000000000

/-- `Frame::toJsonDB`, where `text` formats the local time of a second. -/
def Frame.toJsonDB (text : ℤ → Bytes) (frame : Frame) (parentId : ObjectID) : Json Bytes :=
  let ret := objectFields frame.id frame.storageType
  let ret := Json.setField "datetime" (.string (text (seconds frame.timeStamp))) ret
  let ret := Json.setField "sequence" (.number frame.sequenceNum.toInt) ret
  let ret := Json.setField "source" (.number frame.source.toInt) ret
  .object (if parentId.id ≠ impossibleId then
    Json.setField "frameset_id" (.number parentId.id.toNat) ret else ret)

def Frame.toJson (text : ℤ → Bytes) (frame : Frame) : Json Bytes :=
  frame.toJsonDB text (.ofName [])

def Frameset.toJson (text : ℤ → Bytes) (fs : Frameset) : Json Bytes :=
  .object (Json.setField "frames"
    (.array ((fs.frames.toList.filter fun kv => kv.2.storageType ≠ .noSave).map
      fun kv => kv.2.toJson text)) (objectFields fs.id fs.storageType))

def ObjectDescriptor.toJson (text : ℤ → Bytes) (obj : ObjectDescriptor) : Json Bytes :=
  .object (Json.setField "framesets"
    (.array ((obj.framesets.toList.filter fun kv => kv.2.storageType ≠ .noSave).map
      fun kv => kv.2.toJson text)) (objectFields obj.id obj.storageType))

/-! ### `fromJson` -/

/-- `IObject::fromJson`; without the three fields an error is logged and nothing changes. -/
def objectFromJson (json : Json Bytes) (id : ObjectID) (storageType : StorageType) :
    Except JsonError (ObjectID × StorageType) :=
  if !json.contains "id" || !json.contains "name" || !json.contains "storage_type" then
    .ok (id, storageType)
  else do
    let name ← (← json.field "name").getString
    let n ← (← json.field "id").getInt64
    let type ← (← json.field "storage_type").getInt
    .ok ({ ObjectID.ofName name with id := UInt64.ofInt n }, ⟨Int32.ofInt type⟩)

/-- `Frame::fromJsonDB`; `mktime` is what becomes of the uninitialised `tm`. -/
def Frame.fromJson (mktime : ℤ) (frame : Frame) (json : Json Bytes) : Except JsonError Frame := do
  let (id, type) ← objectFromJson json frame.id frame.storageType
  if !json.contains "datetime" || !json.contains "sequence" || !json.contains "source" then
    return { frame with id := id, storageType := type }
  let _ ← (← json.field "datetime").getString
  let sequence ← (← json.field "sequence").getInt
  let source ← (← json.field "source").getInt
  return ⟨id, type, mktime * 1000000000, Int32.ofInt sequence, Int32.ofInt source⟩

/-- The body of the loop of `Frameset::fromJson`: the frame is made and read through its
reference. -/
def Frameset.frameFromJson (mem : Memory) (fs : Frameset) (json : Json Bytes) :
    Except JsonError Frameset := do
  let name ← (← json.field "name").getString
  let fs := fs.addFrame name (.blank mem name)
  let key := (ObjectID.ofName name).name
  match fs.frames[key]? with
  | none => return fs
  | some frame =>
    let frame ← frame.fromJson (mem.mktime fs.id.name key) json
    return { fs with frames := fs.frames.modify key fun _ => frame }

def Frameset.fromJson (mem : Memory) (fs : Frameset) (json : Json Bytes) :
    Except JsonError Frameset := do
  let (id, type) ← objectFromJson json fs.id fs.storageType
  let fs := { fs with id := id, storageType := type }
  if !json.contains "frames" then return fs
  let frames ← json.field "frames"
  frames.items.foldlM (Frameset.frameFromJson mem) fs

/-- The body of the loop of `ObjectDescriptor::fromJson`. -/
def ObjectDescriptor.framesetFromJson (mem : Memory) (obj : ObjectDescriptor) (json : Json Bytes) :
    Except JsonError ObjectDescriptor := do
  let name ← (← json.field "name").getString
  let obj := obj.addFrameset mem name .noSave
  let key := (ObjectID.ofName name).name
  match obj.framesets[key]? with
  | none => return obj
  | some fs =>
    let fs ← fs.fromJson mem json
    return { obj with framesets := obj.framesets.modify key fun _ => fs }

def ObjectDescriptor.fromJson (mem : Memory) (obj : ObjectDescriptor) (json : Json Bytes) :
    Except JsonError ObjectDescriptor := do
  let (id, type) ← objectFromJson json obj.id obj.storageType
  let obj := { obj with id := id, storageType := type }
  if !json.contains "framesets" then return obj
  let framesets ← json.field "framesets"
  framesets.items.foldlM (ObjectDescriptor.framesetFromJson mem) obj

end TmkDcl.Storage
