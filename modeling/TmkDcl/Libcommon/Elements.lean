import Mathlib.Data.List.Sort
import TmkDcl.Json

/-!
# The configuration and its elements (libcommon/configuration)

A `std::string` is a `String` here with one character for each of its bytes. The texts of the
exceptions are left out.
-/

namespace TmkDcl.Libcommon

open TmkDcl (Json JsonError)

inductive LoadError where
  | json (e : JsonError)
  | badConfig
  | absentType
  deriving DecidableEq

instance : MonadLift (Except JsonError) (Except LoadError) where
  monadLift := Except.mapError .json

abbrev Fields := List (String × Json String)

/-! ### Texts that `dump` accepts -/

def continuation (b : ℕ) : Bool := 0x80 ≤ b && b ≤ 0xBF

/-- Whether `b` can follow the first byte `a` of a sequence of three or four bytes. -/
def secondByte (a b : ℕ) : Bool :=
  if a = 0xE0 then 0xA0 ≤ b && b ≤ 0xBF
  else if a = 0xED then 0x80 ≤ b && b ≤ 0x9F
  else if a = 0xF0 then 0x90 ≤ b && b ≤ 0xBF
  else if a = 0xF4 then 0x80 ≤ b && b ≤ 0x8F
  else continuation b

def utf8 : List ℕ → Bool
  | [] => true
  | a :: s =>
    if a < 0x80 then utf8 s
    else match s with
      | [] => false
      | b :: s =>
        if 0xC2 ≤ a ∧ a ≤ 0xDF then continuation b && utf8 s
        else match s with
          | [] => false
          | c :: s =>
            if 0xE0 ≤ a ∧ a ≤ 0xEF then secondByte a b && continuation c && utf8 s
            else match s with
              | [] => false
              | d :: s =>
                if 0xF0 ≤ a ∧ a ≤ 0xF4 then
                  secondByte a b && continuation c && continuation d && utf8 s
                else false

def validText (s : String) : Bool := utf8 (s.toList.map Char.toNat)

mutual

/-- Every string of the value, keys included, can be written. -/
def validJson : Json String → Bool
  | .string s => validText s
  | .array items => validItems items
  | .object fields => validFields fields
  | _ => true

def validItems : List (Json String) → Bool
  | [] => true
  | v :: rest => validJson v && validItems rest

def validFields : Fields → Bool
  | [] => true
  | (key, v) :: rest => validText key && validJson v && validFields rest

end

/-! ### Elements -/

/-- `FabricsNames`. -/
def typeAttr : String := "serialized_as"
def nameAttr : String := "object_name"
def defaultNameAttr : String := "default"

inductive ConfigType where
  | metaInfo
  | serverSettings
  | pipelineConfig
  | fakeCameraConfig
  deriving DecidableEq

/-- `configType`. -/
def ConfigType.text : ConfigType → String
  | .metaInfo => "meta_info"
  | .serverSettings => "server_settings"
  | .pipelineConfig => "pipeline_settings"
  | .fakeCameraConfig => "fake_camera_settings"

structure ServerSettings where
  address : String
  port : UInt32
  commandQueueSize : Int32
  shmemDataName : String
  shmemDataSize : UInt64
  boostSegmentName : String
  minimalBoostSize : UInt64
  deriving DecidableEq

def ServerSettings.toJson (s : ServerSettings) : Fields :=
  let node := Json.setField "address" (.string s.address) []
  let node := Json.setField "port" (.number s.port.toNat) node
  let node := Json.setField "command_queue_size" (.number s.commandQueueSize.toInt) node
  let node := Json.setField "shmem_data_name" (.string s.shmemDataName) node
  let node := Json.setField "shmem_data_size" (.number s.shmemDataSize.toNat) node
  let node := Json.setField "boost_segment_name" (.string s.boostSegmentName) node
  Json.setField "minimal_boost_size" (.number s.minimalBoostSize.toNat) node

def ServerSettings.fromJson (node : Json String) : Except JsonError ServerSettings := do
  let address ← (← node.entry "address").getString
  let port ← (← node.entry "port").getInt
  let commandQueueSize ← (← node.entry "command_queue_size").getInt
  let shmemDataName ← (← node.entry "shmem_data_name").getString
  let shmemDataSize ← (← node.entry "shmem_data_size").getInt64
  let boostSegmentName ← (← node.entry "boost_segment_name").getString
  let minimalBoostSize ← (← node.entry "minimal_boost_size").getInt64
  return ⟨address, UInt32.ofInt port, Int32.ofInt commandQueueSize, shmemDataName,
    UInt64.ofInt shmemDataSize, boostSegmentName, UInt64.ofInt minimalBoostSize⟩

structure FakeCameraConfig where
  listeningAddress : String
  port : UInt32
  imagesPath : String
  deriving DecidableEq

def FakeCameraConfig.toJson (c : FakeCameraConfig) : Fields :=
  let node := Json.setField "address" (.string c.listeningAddress) []
  let node := Json.setField "port" (.number c.port.toNat) node
  Json.setField "images_path" (.string c.imagesPath) node

def FakeCameraConfig.fromJson (node : Json String) : Except JsonError FakeCameraConfig := do
  let listeningAddress ← (← node.entry "address").getString
  let port ← (← node.entry "port").getInt
  let imagesPath ← (← node.entry "images_path").getString
  return ⟨listeningAddress, UInt32.ofInt port, imagesPath⟩

inductive PipelineNodeType where
  | noBlock
  | first
  | middle
  | last
  deriving DecidableEq

/-- `BackwardMap`. -/
def PipelineNodeType.text : PipelineNodeType → String
  | .noBlock => "NO_BLOCK"
  | .first => "FIRST"
  | .middle => "MIDDLE"
  | .last => "LAST"

/-- `ForwardMap`. -/
def PipelineNodeType.ofText (s : String) : Option PipelineNodeType :=
  if s = "FIRST" then some .first
  else if s = "LAST" then some .last
  else if s = "MIDDLE" then some .middle
  else if s = "NO_BLOCK" then some .noBlock
  else none

structure PipelineNodeConfig where
  id : Int32
  path : String
  launchParameters : List String
  nodeType : PipelineNodeType
  nextId : Int32
  nodeName : String
  deriving DecidableEq

def PipelineNodeConfig.toJson (node : PipelineNodeConfig) : Fields :=
  let json := Json.setField "id" (.number node.id.toInt) []
  let json := Json.setField "name" (.string node.path) json
  let json := Json.setField "next_id" (.number node.nextId.toInt) json
  let json := Json.setField "type" (.string node.nodeType.text) json
  Json.setField "parameters" (.array (node.launchParameters.map .string)) json

def PipelineNodeConfig.fromJson (blockName : String) (node : Json String) :
    Except JsonError PipelineNodeConfig := do
  let id ← (← node.entry "id").getInt
  let path ← (← node.entry "name").getString
  let typeName ← (← node.entry "type").getString
  match PipelineNodeType.ofText typeName with
  | none => .error .missing
  | some nodeType =>
    let nextId ← (← node.entry "next_id").getInt
    match ← node.entry "parameters" with
    | .array parameters =>
      let launchParameters ← parameters.mapM Json.getString
      return ⟨Int32.ofInt id, path, launchParameters, nodeType, Int32.ofInt nextId, blockName⟩
    | _ => .error .type

/-- `operator==`, which does not look at the order of the parameters. -/
def PipelineNodeConfig.eq (a b : PipelineNodeConfig) : Bool :=
  a.id == b.id && a.nextId == b.nextId && a.nodeName == b.nodeName && a.nodeType == b.nodeType &&
    a.path == b.path && a.launchParameters.length == b.launchParameters.length &&
    a.launchParameters.all fun str => b.launchParameters.any fun other => other == str

structure PipelineConfig where
  nodes : List PipelineNodeConfig
  pipeLineConfigName : String
  deriving DecidableEq

/-- `std::stable_sort` by the ids. -/
def sortNodes (nodes : List PipelineNodeConfig) : List PipelineNodeConfig :=
  nodes.insertionSort fun a b => a.id.toInt ≤ b.id.toInt

def PipelineConfig.toJson (p : PipelineConfig) : Fields :=
  (sortNodes p.nodes).foldl
    (fun json node => Json.setField node.nodeName (.object node.toJson) json) []

/-- The body of the first loop of `PipelineConfig::fromJson`. -/
def addNode (nodes : List PipelineNodeConfig) (kv : String × Json String) :
    Except LoadError (List PipelineNodeConfig) :=
  match kv.2 with
  | .object fields =>
    match PipelineNodeConfig.fromJson kv.1 (.object fields) with
    | .ok node => .ok (nodes ++ [node])
    | .error _ => .error .badConfig
  | _ => .ok nodes

/-- What `PipelineConfig::fromJson` demands of the sorted nodes. -/
def nodesAccepted (nodes : List PipelineNodeConfig) : Bool :=
  match nodes.head?, nodes.getLast? with
  | some minElem, some maxElem =>
    minElem.id.toInt == 0 && maxElem.id.toInt - minElem.id.toInt + 1 == nodes.length &&
      maxElem.nextId.toInt == -1
  | _, _ => true

def PipelineConfig.fromJson (key : String) (fields : Fields) : Except LoadError PipelineConfig := do
  let nodes ← fields.foldlM addNode []
  let nodes := sortNodes nodes
  if nodesAccepted nodes then return ⟨nodes, key⟩ else .error .badConfig

/-- `operator==`. -/
def PipelineConfig.eq (p q : PipelineConfig) : Bool :=
  p.pipeLineConfigName == q.pipeLineConfigName && p.nodes.length == q.nodes.length &&
    p.nodes.all fun node =>
      match q.nodes.find? fun node1 => node1.id == node.id with
      | none => false
      | some first => first.eq node

inductive Element where
  | server (s : ServerSettings)
  | pipeline (p : PipelineConfig)
  | fakeCamera (c : FakeCameraConfig)
  deriving DecidableEq

def Element.configType : Element → ConfigType
  | .server _ => .serverSettings
  | .pipeline _ => .pipelineConfig
  | .fakeCamera _ => .fakeCameraConfig

def Element.toJson : Element → Fields
  | .server s => s.toJson
  | .pipeline p => p.toJson
  | .fakeCamera c => c.toJson

/-! ### `Fabrics` -/

/-- The object that `Fabrics::ToJson` makes of an element. -/
def objJson (type : ConfigType) (object : Fields) (objectName : String) : Fields :=
  Json.setField nameAttr (.string (if objectName = "" then defaultNameAttr else objectName))
    (Json.setField typeAttr (.string type.text) object)

/-- The key under which it is written. -/
def objKey (type : ConfigType) (objectName : String) : String :=
  if objectName = "" then type.text else objectName

def fabricsToJson (json : Fields) (type : ConfigType) (object : Fields) (objectName : String) :
    Fields :=
  Json.setField (objKey type objectName) (.object (objJson type object objectName)) json

/-- The name that the `save` of an element passes on. -/
def Element.objectName : Element → String
  | .server _ => ""
  | .pipeline p => p.pipeLineConfigName
  | .fakeCamera _ => ""

def Element.save (e : Element) (json : Fields) : Fields :=
  fabricsToJson json e.configType e.toJson e.objectName

/-- `_registeredSerializedHelpers`: `remove_if` without `erase` leaves the last entry, from which
the text has been moved. -/
def registeredSerializedStrings : List String :=
  ["fake_camera_settings", "pipeline_settings", "server_settings", ""]

def createFromElementByTypeName (typeTag key : String) (json : Json String) :
    Except LoadError Element :=
  if typeTag = "server_settings" then
    (ServerSettings.fromJson json : Except LoadError _).map .server
  else if typeTag = "pipeline_settings" then
    match json with
    | .object fields => (PipelineConfig.fromJson key fields).map .pipeline
    | _ => .error .badConfig
  else if typeTag = "fake_camera_settings" then
    (FakeCameraConfig.fromJson json : Except LoadError _).map .fakeCamera
  else .error .absentType

/-! ### `meta_info` -/

/-- The times are in nanoseconds since the epoch. -/
structure MetaInfo where
  creationTime : ℤ
  lastModificationTime : ℤ
  comment : String
  deriving DecidableEq

/-- `TimePointToTimeSpec` and the text that `timeText` makes of a time. -/
def timeJson (timeText : ℤ → String) (t : ℤ) : Fields :=
  let sec := t.tdiv 1000000000
  let node := Json.setField "sec" (.number sec) []
  let node := Json.setField "nsec" (.number (t - sec * 1000000000)) node
  Json.setField "readable" (.string (timeText t)) node

def MetaInfo.toJson (timeText : ℤ → String) (info : MetaInfo) : Fields :=
  let node := Json.setField "creationTime" (.object (timeJson timeText info.creationTime)) []
  let node := Json.setField "lastModificationTime"
    (.object (timeJson timeText info.lastModificationTime)) node
  Json.setField "comment" (.string info.comment) node

def timeFromJson (node : Json String) : Except JsonError ℤ := do
  let sec ← (← node.entry "sec").getInt64
  let nsec ← (← node.entry "nsec").getInt64
  return sec * 1000000000 + nsec

def MetaInfo.fromJson (node : Json String) : Except JsonError MetaInfo := do
  let creationTime ← timeFromJson (← node.entry "creationTime")
  let lastModificationTime ← timeFromJson (← node.entry "lastModificationTime")
  let comment ← (← node.entry "comment").getString
  return ⟨creationTime, lastModificationTime, comment⟩

/-! ### `Configuration` -/

abbrev ConfigHolderKey := String × String

abbrev Storage := List (ConfigHolderKey × Element)

/-- A configuration in memory, its elements in the order in which the map is gone through. A
comment is empty or has been read from a file. -/
structure Configuration where
  info : MetaInfo
  storage : Storage
  nodup : (storage.map Prod.fst).Nodup
  typed : ∀ kv ∈ storage, kv.1.1 = kv.2.configType.text
  comment : validText info.comment = true

/-- What `Save` writes at the time `now`. -/
def Configuration.json (timeText : ℤ → String) (now : ℤ) (config : Configuration) : Fields :=
  config.storage.foldl (fun json kv => kv.2.save json)
    (fabricsToJson [] .metaInfo
      (MetaInfo.toJson timeText { config.info with lastModificationTime := now }) "")

def Configuration.save (timeText : ℤ → String) (now : ℤ) (config : Configuration) :
    Except LoadError (Json String) :=
  if validFields (config.json timeText now) then .ok (.object (config.json timeText now))
  else .error (.json .type)

/-- The condition of the loop that looks for `meta_info`. -/
def isMetaInfo (kv : String × Json String) : Except JsonError Bool := do
  match ← kv.2.entry typeAttr with
  | .null => return false
  | tag =>
    let typeTag ← tag.getString
    return typeTag == "meta_info" && kv.1 == "meta_info"

def findMetaInfo : Fields → Except JsonError (Option (Json String))
  | [] => .ok none
  | kv :: rest => do
    if ← isMetaInfo kv then return some kv.2
    findMetaInfo rest

def isDefaultName : Json String → Bool
  | .string s => s == defaultNameAttr
  | _ => false

/-- The body of the loop of `parseConfig` up to the insertion. -/
def elementOf (kv : String × Json String) : Except LoadError (Option (ConfigHolderKey × Element)) := do
  let serializedAsTag ← kv.2.entry typeAttr
  let objectNameTag ← kv.2.entry nameAttr
  match serializedAsTag with
  | .null => return none
  | tag =>
    let typeTag ← tag.getString
    if typeTag ∈ registeredSerializedStrings then
      let key := if kv.1 = typeTag ∨ isDefaultName objectNameTag then "" else kv.1
      let element ← createFromElementByTypeName typeTag key kv.2
      return some ((typeTag, key), element)
    else return none

/-- `unordered_map::insert`. -/
def insertNew (storage : Storage) (entry : ConfigHolderKey × Element) : Storage :=
  if (storage.lookup entry.1).isSome then storage else storage ++ [entry]

def parseConfig (fields : Fields) : Except LoadError Storage :=
  fields.foldlM (fun storage kv => do
    match ← elementOf kv with
    | none => return storage
    | some entry => return insertNew storage entry) []

def load (file : Json String) : Except LoadError (MetaInfo × Storage) :=
  match file with
  | .object fields => do
    match ← findMetaInfo fields with
    | none => .error .badConfig
    | some node =>
      let info ← MetaInfo.fromJson node
      let storage ← parseConfig fields
      return (info, storage)
  | _ => .error .badConfig

end TmkDcl.Libcommon
