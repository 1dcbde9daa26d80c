import Mathlib.Data.List.Nodup
import TmkDcl.Storage.ObjectDescriptor

/-!
# Objects through JSON (ObjectDescriptor.cpp, Frameset.cpp, Frame.cpp)

`fromJson` applied to `toJson` gives the saved framesets with their saved frames, but for the two
members that come from uninitialised memory.
-/

namespace TmkDcl.Storage

/-- A name that an `ObjectID` holds as it is. -/
def ValidName (name : Bytes) : Prop := name.length ≤ maxNameLength ∧ ∀ b ∈ name, b ≠ 0

theorem ofName_valid {name : Bytes} (h : ValidName name) :
    ObjectID.ofName name = ⟨name, impossibleId⟩ := by
  obtain ⟨hlen, hzero⟩ := h
  have htake : name.take maxNameLength = name := List.take_of_length_le hlen
  have hcut : cString name = name := by
    apply List.takeWhile_eq_self_iff.mpr
    intro b hb
    simpa using hzero b hb
  rw [ObjectID.ofName, htake, hcut]

/-! ### Maps and their lists of entries -/

section NameMap

variable {α β S : Type} {t : NameMap α}

theorem ofList_toList (t : NameMap α) : Std.ExtTreeMap.ofList t.toList compare = t := by
  apply Std.ExtTreeMap.ext_getElem?
  intro k
  cases h : t[k]? with
  | some v =>
    exact Std.ExtTreeMap.getElem?_ofList_of_mem (by simp) t.distinct_keys_toList
      (Std.ExtTreeMap.mem_toList_iff_getElem?_eq_some.mpr h)
  | none =>
    apply Std.ExtTreeMap.getElem?_ofList_of_contains_eq_false
    rw [Std.ExtTreeMap.map_fst_toList_eq_keys, Std.ExtTreeMap.contains_keys,
      Std.ExtTreeMap.contains_eq_isSome_getElem?, h]
    rfl

/-- `emplace`, and assignment through the reference it returns. -/
theorem modify_insertIfNew (t : NameMap α) (k : Bytes) (a b : α) :
    (t.insertIfNew k a).modify k (fun _ => b) = t.insert k b := by
  apply Std.ExtTreeMap.ext_getElem?
  intro k'
  simp only [Std.ExtTreeMap.getElem?_modify, Std.ExtTreeMap.getElem?_insertIfNew,
    Std.ExtTreeMap.getElem?_insert]
  by_cases hk : compare k k' = .eq
  · by_cases hin : k ∈ t
    · simp [hk, hin]
    · simp [hk, hin]
  · simp [hk]

theorem getElem?_insertIfNew_new {t : NameMap α} {k : Bytes} (a : α) (h : k ∉ t) :
    (t.insertIfNew k a)[k]? = some a := by
  rw [Std.ExtTreeMap.getElem?_insertIfNew]
  simp [h]

/-- The saved entries, each as it is read back. -/
def restoredMap (saved : α → Bool) (g : Bytes → α → β) (t : NameMap α) : NameMap β :=
  (t.filter fun _ a => saved a).map g

theorem restoredMap_eq_insertMany (saved : α → Bool) (g : Bytes → α → β) (t : NameMap α) :
    restoredMap saved g t = (∅ : NameMap β).insertMany
      ((t.toList.filter fun kv => saved kv.2).map fun kv => (kv.1, g kv.1 kv.2)) := by
  rw [← Std.ExtTreeMap.ofList_eq_insertMany_empty, ← ofList_toList (restoredMap saved g t)]
  simp [restoredMap]

/-- A loop that reads one entry after the other into a map, none of which is there before. -/
theorem foldlM_insertMany {ε ι : Type} (put : NameMap β → S) (step : S → ι → Except ε S)
    (write : α → ι) (g : Bytes → α → β) (l : List (Bytes × α)) (t : NameMap β)
    (hstep : ∀ (t : NameMap β), ∀ kv ∈ l, kv.1 ∉ t →
      step (put t) (write kv.2) = .ok (put (t.insert kv.1 (g kv.1 kv.2))))
    (hdistinct : (l.map Prod.fst).Nodup) (hnew : ∀ kv ∈ l, kv.1 ∉ t) :
    (l.map fun kv => write kv.2).foldlM step (put t) =
      .ok (put (t.insertMany (l.map fun kv => (kv.1, g kv.1 kv.2)))) := by
  induction l generalizing t with
  | nil =>
    simp
    rfl
  | cons kv l ih =>
    rw [List.map_cons, List.nodup_cons] at hdistinct
    obtain ⟨hnotin, hdistinct⟩ := hdistinct
    have hrest := ih (t.insert kv.1 (g kv.1 kv.2))
      (fun t' kv' hmem => hstep t' kv' (List.mem_cons_of_mem _ hmem)) hdistinct (by
        intro kv' hmem hin
        rw [Std.ExtTreeMap.mem_insert] at hin
        cases hin with
        | inl heq =>
          apply hnotin
          rw [Std.LawfulEqCmp.eq_of_compare heq]
          exact List.mem_map_of_mem hmem
        | inr hin => exact hnew kv' (List.mem_cons_of_mem _ hmem) hin)
    rw [List.map_cons, List.map_cons, List.foldlM_cons, hstep t kv List.mem_cons_self
      (hnew kv List.mem_cons_self), Std.ExtTreeMap.insertMany_cons]
    exact hrest

end NameMap

/-! ### Reading what has been written -/

/-- Every entry is found under its own name, which an `ObjectID` can hold. -/
def Keyed {α : Type} (t : NameMap α) (id : α → ObjectID) : Prop :=
  ∀ k a, t[k]? = some a → (id a).name = k ∧ ValidName k

section Reading

variable {mem : Memory} {text : ℤ → Bytes}

theorem objectFromJson_written (json : Json Bytes) (id : ObjectID) (type : StorageType)
    (hid : json.field? "id" = some (.number id.id.toNat))
    (hname : json.field? "name" = some (.string id.name))
    (htype : json.field? "storage_type" = some (.number type.value.toInt))
    (hvalid : ValidName id.name) (old : ObjectID) (oldType : StorageType) :
    objectFromJson json old oldType = .ok (id, type) := by
  have hread : UInt64.ofInt (id.id.toNat : ℤ) = id.id := by
    have hmod : ((id.id.toNat : ℤ) % 2 ^ 64).toNat = id.id.toNat := by
      have hlt := id.id.toNat_lt
      omega
    rw [UInt64.ofInt, hmod, UInt64.ofNat_toNat]
  have htype' : Int32.ofInt type.value.toInt = type.value := Int32.ofInt_toInt _
  simp only [objectFromJson, Json.contains, Json.field, hid, hname, htype]
  show Except.ok ({ ObjectID.ofName id.name with id := UInt64.ofInt (id.id.toNat : ℤ) },
    (⟨Int32.ofInt type.value.toInt⟩ : StorageType)) = _
  rw [ofName_valid hvalid, hread, htype']

@[simp] theorem lookup_objectFields_id (id : ObjectID) (type : StorageType) :
    (objectFields id type).lookup "id" = some (.number id.id.toNat) := by
  simp [objectFields, Json.lookup_setField_of_ne]

@[simp] theorem lookup_objectFields_name (id : ObjectID) (type : StorageType) :
    (objectFields id type).lookup "name" = some (.string id.name) := by
  simp [objectFields, Json.lookup_setField_of_ne]

@[simp] theorem lookup_objectFields_type (id : ObjectID) (type : StorageType) :
    (objectFields id type).lookup "storage_type" = some (.number type.value.toInt) := by
  simp [objectFields]

/-- What is read back from a frame that has been written. -/
def Frame.restored (mktime : ℤ) (frame : Frame) : Frame :=
  { frame with timeStamp := mktime * 1000000000 }

theorem frame_fromJson (frame : Frame) (hvalid : ValidName frame.id.name) (mktime : ℤ)
    (old : Frame) : old.fromJson mktime (frame.toJson text) = .ok (frame.restored mktime) := by
  have hparent : (ObjectID.ofName []).id = impossibleId := rfl
  have hobject := objectFromJson_written (frame.toJson text) frame.id frame.storageType
    (by simp [Frame.toJson, Frame.toJsonDB, hparent, Json.lookup_setField_of_ne])
    (by simp [Frame.toJson, Frame.toJsonDB, hparent, Json.lookup_setField_of_ne])
    (by simp [Frame.toJson, Frame.toJsonDB, hparent, Json.lookup_setField_of_ne])
    hvalid old.id old.storageType
  have htime : (frame.toJson text).field? "datetime" =
      some (.string (text (seconds frame.timeStamp))) := by
    simp [Frame.toJson, Frame.toJsonDB, hparent, Json.lookup_setField_of_ne]
  have hsequence : (frame.toJson text).field? "sequence" =
      some (.number frame.sequenceNum.toInt) := by
    simp [Frame.toJson, Frame.toJsonDB, hparent, Json.lookup_setField_of_ne]
  have hsource : (frame.toJson text).field? "source" = some (.number frame.source.toInt) := by
    simp [Frame.toJson, Frame.toJsonDB, hparent]
  simp only [Frame.fromJson, hobject, Json.contains, Json.field, htime, hsequence, hsource]
  show Except.ok (⟨frame.id, frame.storageType, mktime * 1000000000,
    Int32.ofInt frame.sequenceNum.toInt, Int32.ofInt frame.source.toInt⟩ : Frame) = _
  rw [Int32.ofInt_toInt, Int32.ofInt_toInt]
  rfl

def Frame.saved (frame : Frame) : Bool := frame.storageType ≠ .noSave

def Frameset.saved (fs : Frameset) : Bool := fs.storageType ≠ .noSave

theorem Frame.saved_iff {frame : Frame} : frame.saved ↔ frame.storageType ≠ .noSave := by
  simp [Frame.saved]

theorem Frameset.saved_iff {fs : Frameset} : fs.saved ↔ fs.storageType ≠ .noSave := by
  simp [Frameset.saved]

/-- What is read back from a frameset that has been written. -/
def Frameset.restored (mem : Memory) (fs : Frameset) : Frameset :=
  { fs with
    frames := restoredMap Frame.saved (fun k f => f.restored (mem.mktime fs.id.name k)) fs.frames }

theorem frame_step (fs : Frameset) (t : NameMap Frame) (frame : Frame)
    (hvalid : ValidName frame.id.name) (hnew : frame.id.name ∉ t) :
    Frameset.frameFromJson mem { fs with frames := t } (frame.toJson text) =
      .ok { fs with
        frames := t.insert frame.id.name (frame.restored (mem.mktime fs.id.name frame.id.name)) } := by
  have hname : (frame.toJson text).field? "name" = some (.string frame.id.name) := by
    have hparent : (ObjectID.ofName []).id = impossibleId := rfl
    simp [Frame.toJson, Frame.toJsonDB, hparent, Json.lookup_setField_of_ne]
  have hadded : (Frameset.addFrame { fs with frames := t } frame.id.name
      (Frame.blank mem frame.id.name)).frames[frame.id.name]? =
      some (Frame.blank mem frame.id.name) := by
    simp only [Frameset.addFrame, ofName_valid hvalid, getElem?_insertIfNew_new _ hnew]
  simp only [Frameset.frameFromJson, Json.field, hname, Json.getString, bind, Except.bind, pure,
    Except.pure, ofName_valid hvalid, hadded, frame_fromJson frame hvalid]
  simp only [Frameset.addFrame, ofName_valid hvalid, modify_insertIfNew]

theorem keyed_toList {α : Type} {t : NameMap α} {id : α → ObjectID} (h : Keyed t id)
    {saved : α → Bool} {kv : Bytes × α} (hkv : kv ∈ t.toList.filter fun kv => saved kv.2) :
    (id kv.2).name = kv.1 ∧ ValidName kv.1 := by
  have hmem := (List.mem_filter.mp hkv).1
  exact h kv.1 kv.2 (Std.ExtTreeMap.mem_toList_iff_getElem?_eq_some.mp hmem)

theorem nodup_filter_toList {α : Type} (t : NameMap α) (saved : α → Bool) :
    ((t.toList.filter fun kv => saved kv.2).map Prod.fst).Nodup := by
  have hnodup : (t.toList.map Prod.fst).Nodup := by
    rw [Std.ExtTreeMap.map_fst_toList_eq_keys]
    exact Std.ExtTreeMap.nodup_keys
  exact hnodup.sublist (List.filter_sublist.map Prod.fst)

theorem frameset_fromJson (fs old : Frameset) (hvalid : ValidName fs.id.name)
    (hkeyed : Keyed fs.frames Frame.id) (hempty : old.frames = ∅) :
    old.fromJson mem (fs.toJson text) = .ok (fs.restored mem) := by
  have hobject := objectFromJson_written (fs.toJson text) fs.id fs.storageType
    (by simp [Frameset.toJson, Json.lookup_setField_of_ne])
    (by simp [Frameset.toJson, Json.lookup_setField_of_ne])
    (by simp [Frameset.toJson, Json.lookup_setField_of_ne]) hvalid old.id old.storageType
  have hframes : (fs.toJson text).field? "frames" = some (.array
      ((fs.frames.toList.filter fun kv => kv.2.saved).map fun kv => kv.2.toJson text)) := by
    simp only [Frameset.toJson, Json.field?_object, Json.lookup_setField_self]
    rfl
  simp only [Frameset.fromJson, hobject, Json.contains, Json.field, hframes]
  show List.foldlM (Frameset.frameFromJson mem) ({ fs with frames := old.frames } : Frameset)
    ((fs.frames.toList.filter fun kv => kv.2.saved).map fun kv => kv.2.toJson text) = _
  rw [hempty, foldlM_insertMany (fun t => { fs with frames := t }) (Frameset.frameFromJson mem)
    (fun f : Frame => f.toJson text) (fun k f => f.restored (mem.mktime fs.id.name k))]
  · rw [← restoredMap_eq_insertMany Frame.saved fun k f => f.restored (mem.mktime fs.id.name k)]
    rfl
  · intro t kv hkv hnew
    obtain ⟨hname, hkv'⟩ := keyed_toList hkeyed hkv
    have hstep : Frameset.frameFromJson mem { fs with frames := t } (kv.2.toJson text) =
        .ok { fs with
          frames := t.insert kv.2.id.name (kv.2.restored (mem.mktime fs.id.name kv.2.id.name)) } :=
      frame_step fs t kv.2 (hname ▸ hkv') (hname ▸ hnew)
    rw [hname] at hstep
    exact hstep
  · exact nodup_filter_toList fs.frames Frame.saved
  · intro kv _ hin
    exact absurd hin Std.ExtTreeMap.not_mem_empty

/-- What is read back from an object that has been written. -/
def ObjectDescriptor.restored (mem : Memory) (obj : ObjectDescriptor) : ObjectDescriptor :=
  { obj with
    framesets := restoredMap Frameset.saved (fun _ fs => fs.restored mem) obj.framesets }

/-- The frames of an object are found under their own names, and so are the framesets. -/
structure ObjectDescriptor.WellKeyed (obj : ObjectDescriptor) : Prop where
  name : ValidName obj.id.name
  framesets : Keyed obj.framesets Frameset.id
  frames : ∀ (k : Bytes) (fs : Frameset), obj.framesets[k]? = some fs → Keyed fs.frames Frame.id

theorem frameset_step (obj : ObjectDescriptor) (t : NameMap Frameset) (fs : Frameset)
    (hvalid : ValidName fs.id.name) (hkeyed : Keyed fs.frames Frame.id) (hnew : fs.id.name ∉ t) :
    ObjectDescriptor.framesetFromJson mem { obj with framesets := t } (fs.toJson text) =
      .ok { obj with framesets := t.insert fs.id.name (fs.restored mem) } := by
  have hname : (fs.toJson text).field? "name" = some (.string fs.id.name) := by
    simp [Frameset.toJson, Json.lookup_setField_of_ne]
  have hadded : (ObjectDescriptor.addFrameset mem { obj with framesets := t } fs.id.name
      .noSave).framesets[fs.id.name]? =
      some (.new mem fs.id.name .noSave) := by
    simp only [ObjectDescriptor.addFrameset, ofName_valid hvalid, getElem?_insertIfNew_new _ hnew]
  simp only [ObjectDescriptor.framesetFromJson, Json.field, hname, Json.getString, bind, Except.bind,
    pure, Except.pure, ofName_valid hvalid, hadded,
    frameset_fromJson fs (.new mem fs.id.name .noSave) hvalid hkeyed rfl]
  simp only [ObjectDescriptor.addFrameset, ofName_valid hvalid, modify_insertIfNew]

theorem object_fromJson (obj old : ObjectDescriptor) (h : obj.WellKeyed)
    (hempty : old.framesets = ∅) :
    old.fromJson mem (obj.toJson text) = .ok (obj.restored mem) := by
  have hobject := objectFromJson_written (obj.toJson text) obj.id obj.storageType
    (by simp [ObjectDescriptor.toJson, Json.lookup_setField_of_ne])
    (by simp [ObjectDescriptor.toJson, Json.lookup_setField_of_ne])
    (by simp [ObjectDescriptor.toJson, Json.lookup_setField_of_ne]) h.name old.id old.storageType
  have hframesets : (obj.toJson text).field? "framesets" = some (.array
      ((obj.framesets.toList.filter fun kv => kv.2.saved).map fun kv => kv.2.toJson text)) := by
    simp only [ObjectDescriptor.toJson, Json.field?_object, Json.lookup_setField_self]
    rfl
  simp only [ObjectDescriptor.fromJson, hobject, Json.contains, Json.field, hframesets]
  show List.foldlM (ObjectDescriptor.framesetFromJson mem)
    ({ obj with framesets := old.framesets } : ObjectDescriptor)
    ((obj.framesets.toList.filter fun kv => kv.2.saved).map fun kv => kv.2.toJson text) = _
  rw [hempty, foldlM_insertMany (fun t => { obj with framesets := t })
    (ObjectDescriptor.framesetFromJson mem) (fun fs : Frameset => fs.toJson text)
    (fun _ fs => fs.restored mem)]
  · rw [← restoredMap_eq_insertMany Frameset.saved fun _ fs => fs.restored mem]
    rfl
  · intro t kv hkv hnew
    obtain ⟨hname, hvalid⟩ := keyed_toList h.framesets hkv
    have hframes := h.frames kv.1 kv.2
      (Std.ExtTreeMap.mem_toList_iff_getElem?_eq_some.mp (List.mem_filter.mp hkv).1)
    have hstep : ObjectDescriptor.framesetFromJson mem { obj with framesets := t }
        (kv.2.toJson text) =
        .ok { obj with framesets := t.insert kv.2.id.name (kv.2.restored mem) } :=
      frameset_step obj t kv.2 (hname ▸ hvalid) hframes (hname ▸ hnew)
    rw [hname] at hstep
    exact hstep
  · exact nodup_filter_toList obj.framesets Frameset.saved
  · intro kv _ hin
    exact absurd hin Std.ExtTreeMap.not_mem_empty

end Reading

/-! ### Objects as they are built -/

/-- A call of `addFrame`, and the id that the frame is given. -/
structure AddedFrame where
  name : Bytes
  storageType : StorageType
  timeStamp : ℤ
  sequenceNum : Int32
  source : Int32
  id : UInt64

/-- A call of `addFrameset`, the id and the frames that the frameset is given. -/
structure AddedFrameset where
  name : Bytes
  storageType : StorageType
  id : UInt64
  frames : List AddedFrame

/-- `Frame::Frame`. -/
def Frame.new (a : AddedFrame) : Frame :=
  ⟨.ofName a.name, a.storageType, a.timeStamp, a.sequenceNum, a.source⟩

def Frameset.add (fs : Frameset) (a : AddedFrame) : Frameset :=
  let fs := fs.addFrame a.name (.new a)
  { fs with
    frames := fs.frames.modify (ObjectID.ofName a.name).name fun f =>
      { f with id := { f.id with id := a.id } } }

def ObjectDescriptor.add (mem : Memory) (obj : ObjectDescriptor) (a : AddedFrameset) :
    ObjectDescriptor :=
  let obj := obj.addFrameset mem a.name a.storageType
  { obj with
    framesets := obj.framesets.modify (ObjectID.ofName a.name).name fun fs =>
      a.frames.foldl Frameset.add { fs with id := { fs.id with id := a.id } } }

def build (mem : Memory) (name : Bytes) (storageType : StorageType)
    (added : List AddedFrameset) : ObjectDescriptor :=
  added.foldl (ObjectDescriptor.add mem) (.new name storageType)

/-- The names fit into an `ObjectID` and are distinct within their container. -/
structure WellNamed (added : List AddedFrameset) : Prop where
  framesets : (added.map AddedFrameset.name).Nodup
  frames : ∀ a ∈ added, (a.frames.map AddedFrame.name).Nodup
  valid : ∀ a ∈ added, ValidName a.name ∧ ∀ f ∈ a.frames, ValidName f.name

/-- The frame has the data that was added, and its time to the second. -/
structure Frame.Is (f : Frame) (a : AddedFrame) : Prop where
  id : f.id = ⟨a.name, a.id⟩
  storageType : f.storageType = a.storageType
  sequenceNum : f.sequenceNum = a.sequenceNum
  source : f.source = a.source
  timeStamp : seconds f.timeStamp = seconds a.timeStamp

/-- The map holds exactly what was added and is to be saved. -/
structure Holds {α β : Type} (t : NameMap α) (added : List β) (name : β → Bytes)
    (storageType : β → StorageType) (same : α → β → Prop) : Prop where
  saved : ∀ b ∈ added, storageType b ≠ .noSave → ∃ a, t[name b]? = some a ∧ same a b
  only : ∀ k a, t[k]? = some a → ∃ b ∈ added, name b = k ∧ storageType b ≠ .noSave

structure Frameset.Is (fs : Frameset) (a : AddedFrameset) : Prop where
  id : fs.id = ⟨a.name, a.id⟩
  storageType : fs.storageType = a.storageType
  frames : Holds fs.frames a.frames AddedFrame.name AddedFrame.storageType Frame.Is

/-- `fromJson` of `toJson` into a fresh object gives the framesets and frames to be saved. -/
def RoundTrips (mem : Memory) (text : ℤ → Bytes) (obj fresh : ObjectDescriptor)
    (added : List AddedFrameset) : Prop :=
  ∃ loaded, fresh.fromJson mem (obj.toJson text) = .ok loaded ∧
    Holds loaded.framesets added AddedFrameset.name AddedFrameset.storageType Frameset.Is

section Building

variable {mem : Memory} {α β : Type}

theorem modify_insertIfNew_new {t : NameMap α} {k : Bytes} {a : α} {f : α → α} (h : k ∉ t) :
    (t.insertIfNew k a).modify k f = t.insert k (f a) := by
  rw [← modify_insertIfNew t k a (f a)]
  apply Std.ExtTreeMap.ext_getElem?
  intro k'
  simp only [Std.ExtTreeMap.getElem?_modify, getElem?_insertIfNew_new a h, Option.map_some]

theorem foldl_insertMany {S : Type} (put : NameMap α → S) (add : S → β → S) (name : β → Bytes)
    (g : β → α) (l : List β) (t : NameMap α)
    (hadd : ∀ (t : NameMap α), ∀ b ∈ l, name b ∉ t → add (put t) b = put (t.insert (name b) (g b)))
    (hdistinct : (l.map name).Nodup) (hnew : ∀ b ∈ l, name b ∉ t) :
    l.foldl add (put t) = put (t.insertMany (l.map fun b => (name b, g b))) := by
  induction l generalizing t with
  | nil => simp
  | cons b l ih =>
    rw [List.map_cons, List.nodup_cons] at hdistinct
    obtain ⟨hnotin, hdistinct⟩ := hdistinct
    rw [List.foldl_cons, List.map_cons, Std.ExtTreeMap.insertMany_cons,
      hadd t b List.mem_cons_self (hnew b List.mem_cons_self)]
    apply ih _ (fun t' b' hmem => hadd t' b' (List.mem_cons_of_mem _ hmem)) hdistinct
    intro b' hmem hin
    rw [Std.ExtTreeMap.mem_insert] at hin
    cases hin with
    | inl heq =>
      apply hnotin
      rw [Std.LawfulEqCmp.eq_of_compare heq]
      exact List.mem_map_of_mem hmem
    | inr hin => exact hnew b' (List.mem_cons_of_mem _ hmem) hin

theorem getElem?_added (l : List β) (name : β → Bytes) (g : β → α) (hdistinct : (l.map name).Nodup)
    (k : Bytes) (a : α) :
    ((∅ : NameMap α).insertMany (l.map fun b => (name b, g b)))[k]? = some a ↔
      ∃ b ∈ l, name b = k ∧ g b = a := by
  rw [← Std.ExtTreeMap.ofList_eq_insertMany_empty]
  have hpair : (l.map fun b => (name b, g b)).Pairwise (fun a b => ¬ compare a.1 b.1 = .eq) := by
    rw [List.pairwise_map]
    have hname := List.pairwise_map.mp hdistinct
    exact hname.imp fun hne heq => hne (Std.LawfulEqCmp.eq_of_compare heq)
  have hfound : ∀ b ∈ l, (Std.ExtTreeMap.ofList (l.map fun b => (name b, g b)) compare)[name b]? =
      some (g b) := by
    intro b hb
    exact Std.ExtTreeMap.getElem?_ofList_of_mem (by simp) hpair (List.mem_map_of_mem hb)
  constructor
  · intro h
    by_cases hk : k ∈ l.map name
    · obtain ⟨b, hb, rfl⟩ := List.mem_map.mp hk
      rw [hfound b hb] at h
      exact ⟨b, hb, rfl, Option.some.inj h⟩
    · rw [Std.ExtTreeMap.getElem?_ofList_of_contains_eq_false] at h
      · cases h
      · simpa [List.map_map] using hk
  · rintro ⟨b, hb, rfl, rfl⟩
    exact hfound b hb

/-- The frame that an addition makes. -/
def AddedFrame.frame (a : AddedFrame) : Frame :=
  ⟨⟨a.name, a.id⟩, a.storageType, a.timeStamp, a.sequenceNum, a.source⟩

/-- The frameset that an addition makes. -/
def AddedFrameset.frameset (mem : Memory) (a : AddedFrameset) : Frameset where
  id := ⟨a.name, a.id⟩
  storageType := mem.framesetType a.name
  frames := (∅ : NameMap Frame).insertMany (a.frames.map fun f => (f.name, f.frame))

theorem foldl_add (fs : Frameset) (l : List AddedFrame) (hvalid : ∀ a ∈ l, ValidName a.name)
    (hdistinct : (l.map AddedFrame.name).Nodup) (hempty : fs.frames = ∅) :
    l.foldl Frameset.add fs =
      { fs with frames := (∅ : NameMap Frame).insertMany (l.map fun f => (f.name, f.frame)) } := by
  have hloop := foldl_insertMany (fun t => { fs with frames := t }) Frameset.add AddedFrame.name
    AddedFrame.frame l ∅ (by
      intro t a ha hnew
      simp only [Frameset.add, Frameset.addFrame, Frame.new, ofName_valid (hvalid a ha),
        modify_insertIfNew_new hnew]
      rfl) hdistinct (fun _ _ hin => absurd hin Std.ExtTreeMap.not_mem_empty)
  rw [← hloop, ← hempty]

theorem build_framesets (name : Bytes) (storageType : StorageType) {added : List AddedFrameset}
    (h : WellNamed added) :
    build mem name storageType added =
      { ObjectDescriptor.new name storageType with
        framesets := (∅ : NameMap Frameset).insertMany
          (added.map fun a => (a.name, a.frameset mem)) } := by
  exact foldl_insertMany (fun t => { ObjectDescriptor.new name storageType with framesets := t })
    (ObjectDescriptor.add mem) AddedFrameset.name (AddedFrameset.frameset mem) added ∅ (by
      intro t a ha hnew
      obtain ⟨hname, hframes⟩ := h.valid a ha
      have hfold := foldl_add ⟨⟨a.name, a.id⟩, mem.framesetType a.name, ∅⟩ a.frames hframes
        (h.frames a ha) rfl
      simp only [ObjectDescriptor.add, ObjectDescriptor.addFrameset, Frameset.new,
        ofName_valid hname, modify_insertIfNew_new hnew, hfold]
      rfl) h.framesets (fun _ _ hin => absurd hin Std.ExtTreeMap.not_mem_empty)

theorem getElem?_build {name : Bytes} {storageType : StorageType} {added : List AddedFrameset}
    (h : WellNamed added) (k : Bytes) (fs : Frameset) :
    (build mem name storageType added).framesets[k]? = some fs ↔
      ∃ a ∈ added, a.name = k ∧ a.frameset mem = fs := by
  rw [build_framesets name storageType h]
  exact getElem?_added added AddedFrameset.name (AddedFrameset.frameset mem) h.framesets k fs

theorem getElem?_frameset {added : List AddedFrameset} (h : WellNamed added) {a : AddedFrameset}
    (ha : a ∈ added) (k : Bytes) (f : Frame) :
    (a.frameset mem).frames[k]? = some f ↔ ∃ b ∈ a.frames, b.name = k ∧ b.frame = f :=
  getElem?_added a.frames AddedFrame.name AddedFrame.frame (h.frames a ha) k f

theorem validName_ofName (name : Bytes) : ValidName (ObjectID.ofName name).name := by
  constructor
  · exact (List.takeWhile_prefix _).length_le.trans (List.length_take_le _ _)
  · intro b hb
    simpa using List.mem_takeWhile_imp hb

theorem build_wellKeyed (name : Bytes) (storageType : StorageType) {added : List AddedFrameset}
    (h : WellNamed added) : (build mem name storageType added).WellKeyed := by
  constructor
  · rw [build_framesets name storageType h]
    exact validName_ofName name
  · intro k fs hk
    obtain ⟨a, ha, rfl, rfl⟩ := (getElem?_build h k fs).mp hk
    exact ⟨rfl, (h.valid a ha).1⟩
  · intro k fs hk k' f hf
    obtain ⟨a, ha, rfl, rfl⟩ := (getElem?_build h k fs).mp hk
    obtain ⟨b, hb, rfl, rfl⟩ := (getElem?_frameset h ha k' f).mp hf
    exact ⟨rfl, (h.valid a ha).2 b hb⟩

end Building

/-! ### What comes back -/

section Exact

variable {mem : Memory} {α β : Type}

theorem getElem?_restoredMap (saved : α → Bool) (g : Bytes → α → β) (t : NameMap α) (k : Bytes)
    (b : β) : (restoredMap saved g t)[k]? = some b ↔ ∃ a, t[k]? = some a ∧ saved a ∧ g k a = b := by
  simp [restoredMap, Option.filter_eq_some_iff, and_assoc]

theorem seconds_mul (s : ℤ) : seconds (s * 1000000000) = s := Int.mul_tdiv_cancel s (by decide)

/-- The frames of a frameset come back exactly if each saved one gets its time from `mktime`. -/
theorem frames_hold_iff {added : List AddedFrameset} (h : WellNamed added) {a : AddedFrameset}
    (ha : a ∈ added) :
    Holds ((a.frameset mem).restored mem).frames a.frames AddedFrame.name AddedFrame.storageType
        Frame.Is ↔
      ∀ f ∈ a.frames, f.storageType ≠ .noSave → mem.mktime a.name f.name = seconds f.timeStamp := by
  have hfound : ∀ k g, ((a.frameset mem).restored mem).frames[k]? = some g ↔
      ∃ f ∈ a.frames, f.name = k ∧ f.storageType ≠ .noSave ∧
        f.frame.restored (mem.mktime a.name k) = g := by
    intro k g
    rw [Frameset.restored, getElem?_restoredMap]
    constructor
    · rintro ⟨x, hx, hsaved, rfl⟩
      obtain ⟨f, hf, rfl, rfl⟩ := (getElem?_frameset h ha k x).mp hx
      exact ⟨f, hf, rfl, Frame.saved_iff.mp hsaved, rfl⟩
    · rintro ⟨f, hf, rfl, hsaved, rfl⟩
      exact ⟨f.frame, (getElem?_frameset h ha f.name f.frame).mpr ⟨f, hf, rfl, rfl⟩,
        Frame.saved_iff.mpr hsaved, rfl⟩
  constructor
  · intro hold f hf hsaved
    obtain ⟨g, hg, hsame⟩ := hold.saved f hf hsaved
    obtain ⟨f', hf', hname, -, rfl⟩ := (hfound f.name g).mp hg
    have htime := hsame.timeStamp
    rw [Frame.restored, seconds_mul] at htime
    exact htime
  · intro htime
    constructor
    · intro f hf hsaved
      refine ⟨_, (hfound f.name _).mpr ⟨f, hf, rfl, hsaved, rfl⟩, ⟨rfl, rfl, rfl, rfl, ?_⟩⟩
      rw [Frame.restored, seconds_mul]
      exact htime f hf hsaved
    · intro k g hg
      obtain ⟨f, hf, hname, hsaved, -⟩ := (hfound k g).mp hg
      exact ⟨f, hf, hname, hsaved⟩

/-- The uninitialised members hold what was meant to be there. -/
structure Lucky (mem : Memory) (added : List AddedFrameset) : Prop where
  framesetType : ∀ a ∈ added, mem.framesetType a.name = a.storageType
  mktime : ∀ a ∈ added, a.storageType ≠ .noSave → ∀ f ∈ a.frames, f.storageType ≠ .noSave →
    mem.mktime a.name f.name = seconds f.timeStamp

theorem getElem?_loaded {name : Bytes} {storageType : StorageType} {added : List AddedFrameset}
    (h : WellNamed added) (k : Bytes) (fs : Frameset) :
    ((build mem name storageType added).restored mem).framesets[k]? = some fs ↔
      ∃ a ∈ added, a.name = k ∧ mem.framesetType a.name ≠ .noSave ∧
        (a.frameset mem).restored mem = fs := by
  rw [ObjectDescriptor.restored, getElem?_restoredMap]
  constructor
  · rintro ⟨x, hx, hsaved, rfl⟩
    obtain ⟨a, ha, rfl, rfl⟩ := (getElem?_build h k x).mp hx
    exact ⟨a, ha, rfl, Frameset.saved_iff.mp hsaved, rfl⟩
  · rintro ⟨a, ha, rfl, hsaved, rfl⟩
    exact ⟨a.frameset mem, (getElem?_build h a.name _).mpr ⟨a, ha, rfl, rfl⟩,
      Frameset.saved_iff.mpr hsaved, rfl⟩

theorem RoundTrips.lucky {text : ℤ → Bytes} {name other : Bytes}
    {storageType otherType : StorageType} {added : List AddedFrameset} (h : WellNamed added)
    (htrip : RoundTrips mem text (build mem name storageType added) (.new other otherType) added) :
    Lucky mem added := by
  obtain ⟨loaded, hok, hold⟩ := htrip
  rw [object_fromJson _ _ (build_wellKeyed name storageType h) rfl, Except.ok.injEq] at hok
  subst hok
  have hunique : ∀ a ∈ added, ∀ b ∈ added, a.name = b.name → a = b := by
    intro a ha b hb heq
    exact List.inj_on_of_nodup_map h.framesets ha hb heq
  -- the frameset that comes back under a name is the one that was added under it
  have hback : ∀ a ∈ added, a.storageType ≠ .noSave →
      ((a.frameset mem).restored mem).Is a := by
    intro a ha hno
    obtain ⟨fs, hfs, hsame⟩ := hold.saved a ha hno
    obtain ⟨b, hb, hname, -, rfl⟩ := (getElem?_loaded h a.name fs).mp hfs
    rwa [hunique b hb a ha hname] at hsame
  constructor
  · intro a ha
    by_cases hno : a.storageType = .noSave
    · by_contra hne
      rw [hno] at hne
      obtain ⟨b, hb, hname, hsaved⟩ := hold.only a.name _
        ((getElem?_loaded h a.name _).mpr ⟨a, ha, rfl, hne, rfl⟩)
      rw [hunique b hb a ha hname] at hsaved
      exact hsaved hno
    · exact (hback a ha hno).storageType
  · intro a ha hno
    exact (frames_hold_iff h ha).mp (hback a ha hno).frames

theorem Lucky.roundTrips {text : ℤ → Bytes} {name other : Bytes}
    {storageType otherType : StorageType} {added : List AddedFrameset} (h : WellNamed added)
    (hlucky : Lucky mem added) :
    RoundTrips mem text (build mem name storageType added) (.new other otherType) added := by
  refine ⟨_, object_fromJson _ _ (build_wellKeyed name storageType h) rfl, ?_, ?_⟩
  · intro a ha hno
    have htype := hlucky.framesetType a ha
    refine ⟨_, (getElem?_loaded h a.name _).mpr ⟨a, ha, rfl, htype ▸ hno, rfl⟩, rfl, htype, ?_⟩
    exact (frames_hold_iff h ha).mpr (hlucky.mktime a ha hno)
  · intro k fs hk
    obtain ⟨a, ha, hname, hne, -⟩ := (getElem?_loaded h k fs).mp hk
    exact ⟨a, ha, hname, hlucky.framesetType a ha ▸ hne⟩

/-- An object comes back exactly if the uninitialised memory happens to hold the storage type of
each frameset and the time of each saved frame. -/
theorem roundTrips_iff (mem : Memory) (text : ℤ → Bytes) (name other : Bytes)
    (storageType otherType : StorageType) (added : List AddedFrameset) (h : WellNamed added) :
    RoundTrips mem text (build mem name storageType added) (.new other otherType) added ↔
      Lucky mem added :=
  ⟨RoundTrips.lucky h, Lucky.roundTrips h⟩

end Exact

/-- One saved frameset with one saved frame, taken five seconds after the epoch. -/
def oneFrame : List AddedFrameset :=
  [⟨literal "fs", .shortTerm, 7, [⟨literal "f", .longTerm, 5000000000, 1, 2, 3⟩]⟩]

theorem wellNamed_oneFrame : WellNamed oneFrame := by
  refine ⟨by decide, by decide, ?_⟩
  intro a ha
  rw [oneFrame, List.mem_singleton] at ha
  subst ha
  refine ⟨⟨by decide, by simp [literal]⟩, ?_⟩
  intro f hf
  rw [List.mem_singleton.mp hf]
  exact ⟨by decide, by simp [literal]⟩

theorem roundTrips_oneFrame : RoundTrips ⟨fun _ => .shortTerm, 0, fun _ _ => 5⟩ (fun _ => [])
    (build ⟨fun _ => .shortTerm, 0, fun _ _ => 5⟩ (literal "obj") .shortTerm oneFrame)
    (.new [] .noSave) oneFrame := by
  apply (roundTrips_iff _ _ _ _ _ _ _ wellNamed_oneFrame).mpr
  constructor
  · intro a ha
    rw [List.mem_singleton.mp ha]
  · intro a ha _ f hf _
    rw [List.mem_singleton.mp ha] at hf
    rw [List.mem_singleton.mp hf]
    rfl

/-- In cleared memory the frameset counts as one not to be saved. -/
theorem not_roundTrips_oneFrame : ¬ RoundTrips ⟨fun _ => .noSave, 0, fun _ _ => 0⟩ (fun _ => [])
    (build ⟨fun _ => .noSave, 0, fun _ _ => 0⟩ (literal "obj") .shortTerm oneFrame)
    (.new [] .noSave) oneFrame := by
  intro h
  have htype := (h.lucky wellNamed_oneFrame).framesetType _ (List.mem_singleton_self _)
  exact absurd htype (by decide)

end TmkDcl.Storage
