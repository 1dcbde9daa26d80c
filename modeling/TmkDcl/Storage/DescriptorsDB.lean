import TmkDcl.Storage.StoredImage

/-!
# Objects on disk (DescriptorsDB.cpp)

An object is saved as a text with its framesets and frames, and an image for each of the frames. An
exception leaves `save` where a string of the text is not UTF-8, or where a file has the name of a
directory.
-/

namespace TmkDcl.Storage

open TmkDcl (Json JsonError)

/-! ### DescriptorsDB -/

/-- The images of the frames, by the names of their framesets and their own. -/
abbrev Images := Bytes → Bytes → Mat

def desctiptorJsonFilename : Bytes := literal "descriptor.json"

/-- `json::dump`: without a result where a string is not UTF-8. -/
def dump (json : Json Bytes) : Option (Json Bytes) := if json.allStrings utf8 then some json else none

/-- `std::filesystem::create_directory`: without a result where the name is that of a file. -/
def createDirectory (path : Path) (disk : Disk) : Option Disk :=
  if (disk path).isNone then some disk else none

section Paths

variable (start : List Bytes) (root : Bytes)

def objectPath (name : Bytes) : Bytes := joinPath slash root name

def framesetPath (name framesetName : Bytes) : Bytes :=
  joinPath slash (objectPath root name) framesetName

def descriptorPath (name : Bytes) : Path :=
  .of start (joinPath slash (objectPath root name) desctiptorJsonFilename)

def imagePath (name framesetName frameName : Bytes) : Path :=
  .of start (joinPath slash (framesetPath root name framesetName) frameName)

/-- What the inner loop of `DescriptorsDB::save` saves, and where. -/
def Frameset.savedImages (fs : Frameset) (name key : Bytes) (images : Images) : List (Path × Mat) :=
  (fs.frames.toList.filter fun kf => kf.2.storageType ≠ .noSave).map fun kf =>
    (imagePath start root name fs.id.name kf.2.id.name, images key kf.1)

/-- The body of the outer loop of `DescriptorsDB::save`. -/
def saveFrameset (codec : Codec) (name : Bytes) (images : Images) (disk : Disk)
    (kv : Bytes × Frameset) : Option Disk :=
  if kv.2.storageType ≠ .noSave then do
    let disk ← createDirectory (.of start (framesetPath root name kv.2.id.name)) disk
    return (kv.2.savedImages start root name kv.1 images).foldl
      (fun disk image => saveImage codec image.2 image.1 disk) disk
  else some disk

/-- `DescriptorsDB::save` of an object that is found in the shared memory. The root is a directory, so
that `create_directories` makes that of the object. -/
def save (codec : Codec) (text : ℤ → Bytes) (obj : ObjectDescriptor) (images : Images) (disk : Disk) :
    Option Disk := do
  let disk ← createDirectory (.of start (objectPath root obj.id.name)) disk
  let json ← dump (obj.toJson text)
  let disk := Function.update disk (descriptorPath start root obj.id.name) (some (.json json))
  obj.framesets.toList.foldlM (saveFrameset start root codec obj.id.name images) disk

/-- What the loops of `DescriptorsDB::load` read for the frames of the object. -/
def ObjectDescriptor.loadedImages (obj : ObjectDescriptor) (codec : Codec) (name : Bytes) (disk : Disk) :
    List ((Bytes × Bytes) × Option Mat) :=
  obj.framesets.toList.flatMap fun kv => kv.2.frames.toList.map fun kf =>
    ((kv.1, kf.1), readImage codec (imagePath start root name kv.2.id.name kf.2.id.name) disk)

/-- `DescriptorsDB::load` of an object that is not yet in the shared memory. -/
def load (codec : Codec) (mem : Memory) (name : Bytes) (disk : Disk) :
    Except JsonError (Option (ObjectDescriptor × List ((Bytes × Bytes) × Option Mat))) :=
  match disk (descriptorPath start root name) with
  | none => .ok none
  | some (.json json) => do
    let obj ← (ObjectDescriptor.new name .noSave).fromJson mem json
    .ok (some (obj, obj.loadedImages start root codec name disk))
  | some _ => .error .parse

end Paths

/-! ### The frames that are saved -/

/-- A frame that is saved: it and its frameset are, each by its storage type. -/
def ObjectDescriptor.Saved (obj : ObjectDescriptor) (framesetName frameName : Bytes) : Prop :=
  ∃ fs f, obj.framesets[framesetName]? = some fs ∧ fs.saved ∧
    fs.frames[frameName]? = some f ∧ f.saved

def ObjectDescriptor.SavedFrameset (obj : ObjectDescriptor) (framesetName : Bytes) : Prop :=
  ∃ fs, obj.framesets[framesetName]? = some fs ∧ fs.saved

/-- What is saved has the names of files. -/
structure ObjectDescriptor.PlainNames (obj : ObjectDescriptor) : Prop where
  name : PlainName slash dot obj.id.name
  frameset : ∀ k, obj.SavedFrameset k → PlainName slash dot k
  frame : ∀ k k', obj.Saved k k' → slash ∉ k'

section Names

variable {start : List Bytes} {root name k k' c c' : Bytes} {path : Bytes}

theorem of_joinPath (h : slash ∉ name) :
    Path.of start (joinPath slash path name) = ⟨placeOf slash dot start path, name⟩ := by
  rw [Path.of, dirPlace_joinPath h, lineRest_joinPath h]

/-- Where the root of the store is. -/
def rootPlace (start : List Bytes) (root : Bytes) : List Bytes := placeOf slash dot start root

theorem placeOf_objectPath (h : PlainName slash dot name) :
    placeOf slash dot start (objectPath root name) = rootPlace start root ++ [name] := h.placeOf_joinPath

theorem descriptorPath_eq (h : PlainName slash dot name) : descriptorPath start root name =
    ⟨rootPlace start root ++ [name], desctiptorJsonFilename⟩ := by
  have hslash : slash ∉ desctiptorJsonFilename := by decide
  rw [descriptorPath, of_joinPath hslash, placeOf_objectPath h]

theorem imagePath_eq (h : PlainName slash dot name) (hk : PlainName slash dot k) (hk' : slash ∉ k') :
    imagePath start root name k k' = ⟨rootPlace start root ++ [name] ++ [k], k'⟩ := by
  rw [imagePath, of_joinPath hk', framesetPath, hk.placeOf_joinPath, placeOf_objectPath h]

end Names

/-! ### The text of an object -/

section Text

variable {text : ℤ → Bytes} {obj : ObjectDescriptor} {fs : Frameset} {frame : Frame}

end Text

/-! ### What is saved, and where -/

section Database

variable {codec : Codec} {mem : Memory} {text : ℤ → Bytes} {start : List Bytes} {root : Bytes}
variable {obj : ObjectDescriptor} {images : Images} {disk saved : Disk} {k k' : Bytes}
variable {kv : Bytes × Frameset}

/-- All the images of an object. -/
def ObjectDescriptor.savedImages (obj : ObjectDescriptor) (start : List Bytes) (root : Bytes)
    (images : Images) : List (Path × Mat) :=
  (obj.framesets.toList.filter fun kv => kv.2.saved).flatMap fun kv =>
    kv.2.savedImages start root obj.id.name kv.1 images

/-- The disk when an object has been saved. -/
def savedDisk (codec : Codec) (text : ℤ → Bytes) (start : List Bytes) (root : Bytes)
    (obj : ObjectDescriptor) (images : Images) (disk : Disk) : Disk :=
  (obj.savedImages start root images).foldl (fun disk image => saveImage codec image.2 image.1 disk)
    (Function.update disk (descriptorPath start root obj.id.name) (some (.json (obj.toJson text))))

theorem savedFrameset_of_mem (h : obj.WellKeyed) (hkv : kv ∈ obj.framesets.toList) (hsaved : kv.2.saved) :
    obj.SavedFrameset kv.1 ∧ kv.2.id.name = kv.1 := by
  have hget := Std.ExtTreeMap.mem_toList_iff_getElem?_eq_some.mp hkv
  exact ⟨⟨kv.2, hget, hsaved⟩, (h.framesets kv.1 kv.2 hget).1⟩

theorem mem_frameset_savedImages (h : obj.WellKeyed) (hkv : kv ∈ obj.framesets.toList)
    (hsaved : kv.2.saved) {e : Path × Mat} :
    e ∈ kv.2.savedImages start root obj.id.name kv.1 images ↔ ∃ k', obj.Saved kv.1 k' ∧
      (imagePath start root obj.id.name kv.1 k', images kv.1 k') = e := by
  have hget := Std.ExtTreeMap.mem_toList_iff_getElem?_eq_some.mp hkv
  have hname := (savedFrameset_of_mem h hkv hsaved).2
  rw [Frameset.savedImages, List.mem_map]
  constructor
  · rintro ⟨kf, hkf, rfl⟩
    obtain ⟨hkf, hframe⟩ := List.mem_filter.mp hkf
    have hget' := Std.ExtTreeMap.mem_toList_iff_getElem?_eq_some.mp hkf
    refine ⟨kf.1, ⟨kv.2, kf.2, hget, hsaved, hget', hframe⟩, ?_⟩
    rw [hname, (h.frames kv.1 kv.2 hget kf.1 kf.2 hget').1]
  · rintro ⟨k', ⟨fs, f, hk, -, hk', hframe⟩, rfl⟩
    rw [hget, Option.some.injEq] at hk
    subst hk
    refine ⟨(k', f), List.mem_filter.mpr
      ⟨Std.ExtTreeMap.mem_toList_iff_getElem?_eq_some.mpr hk', hframe⟩, ?_⟩
    rw [hname, (h.frames kv.1 kv.2 hget k' f hk').1]

theorem mem_savedImages (h : obj.WellKeyed) {e : Path × Mat} :
    e ∈ obj.savedImages start root images ↔ ∃ k k', obj.Saved k k' ∧
      (imagePath start root obj.id.name k k', images k k') = e := by
  rw [ObjectDescriptor.savedImages, List.mem_flatMap]
  constructor
  · rintro ⟨kv, hkv, he⟩
    obtain ⟨hkv, hsaved⟩ := List.mem_filter.mp hkv
    exact ⟨kv.1, (mem_frameset_savedImages h hkv hsaved).mp he⟩
  · rintro ⟨k, k', hk, he⟩
    obtain ⟨fs, -, hfs, hsaved, -⟩ := id hk
    have hkv : (k, fs) ∈ obj.framesets.toList := Std.ExtTreeMap.mem_toList_iff_getElem?_eq_some.mpr hfs
    exact ⟨(k, fs), List.mem_filter.mpr ⟨hkv, hsaved⟩,
      (mem_frameset_savedImages h hkv hsaved).mpr ⟨k', hk, he⟩⟩

theorem ObjectDescriptor.Saved.frameset (h : obj.Saved k k') : obj.SavedFrameset k := by
  obtain ⟨fs, -, hfs, hsaved, -⟩ := h
  exact ⟨fs, hfs, hsaved⟩

theorem ObjectDescriptor.PlainNames.imagePath_eq (hobj : obj.PlainNames) (h : obj.Saved k k') :
    imagePath start root obj.id.name k k' = ⟨rootPlace start root ++ [obj.id.name] ++ [k], k'⟩ :=
  Storage.imagePath_eq hobj.name (hobj.frameset k h.frameset) (hobj.frame k k' h)

end Database

/-! ### The objects that the program builds -/

section Building

variable {mem : Memory} {obj : ObjectDescriptor} {name key : Bytes} {storageType : StorageType}

theorem Keyed.insertIfNew {α : Type} {t : NameMap α} {id : α → ObjectID} {a : α} (h : Keyed t id)
    (ha : id a = .ofName name) : Keyed (t.insertIfNew (ObjectID.ofName name).name a) id := by
  intro k b hk
  rw [Std.ExtTreeMap.getElem?_insertIfNew] at hk
  split at hk
  · rename_i hnew
    cases hk
    rw [ha, ← Std.LawfulEqCmp.eq_of_compare hnew.1]
    exact ⟨rfl, validName_ofName name⟩
  · exact h k b hk

theorem wellKeyed_new : (ObjectDescriptor.new name storageType).WellKeyed := by
  have hempty : ∀ (k : Bytes) (fs : Frameset), (∅ : NameMap Frameset)[k]? ≠ some fs := by simp
  constructor
  · exact validName_ofName name
  · intro k fs hk
    exact absurd hk (hempty k fs)
  · intro k fs hk
    exact absurd hk (hempty k fs)

theorem ObjectDescriptor.WellKeyed.addFrameset (h : obj.WellKeyed) :
    (obj.addFrameset mem name storageType).WellKeyed := by
  constructor
  · exact h.name
  · exact h.framesets.insertIfNew rfl
  · intro k fs hk
    simp only [ObjectDescriptor.addFrameset, Std.ExtTreeMap.getElem?_insertIfNew] at hk
    split at hk
    · cases hk
      intro k' f hk'
      simp [Frameset.new] at hk'
    · exact h.frames k fs hk

/-- A frame added to the frameset with a name. -/
def ObjectDescriptor.addFrame (obj : ObjectDescriptor) (key name : Bytes) (frame : Frame) :
    ObjectDescriptor :=
  { obj with framesets := obj.framesets.modify key fun fs => fs.addFrame name frame }

theorem ObjectDescriptor.WellKeyed.addFrame {frame : Frame} (h : obj.WellKeyed)
    (hframe : frame.id = .ofName name) : (obj.addFrame key name frame).WellKeyed := by
  have hfound : ∀ (k : Bytes) (fs : Frameset),
      (obj.addFrame key name frame).framesets[k]? = some fs →
      ∃ old, obj.framesets[k]? = some old ∧ (fs = old ∨ fs = old.addFrame name frame) := by
    intro k fs hk
    simp only [ObjectDescriptor.addFrame, Std.ExtTreeMap.getElem?_modify] at hk
    split at hk
    · rename_i heq
      obtain ⟨old, hold, rfl⟩ := Option.map_eq_some_iff.mp hk
      exact ⟨old, Std.LawfulEqCmp.eq_of_compare heq ▸ hold, .inr rfl⟩
    · exact ⟨fs, hk, .inl rfl⟩
  constructor
  · exact h.name
  · intro k fs hk
    obtain ⟨old, hold, heq⟩ := hfound k fs hk
    have hid : fs.id = old.id := by
      cases heq with
      | inl heq => rw [heq]
      | inr heq => rw [heq]; rfl
    rw [hid]
    exact h.framesets k old hold
  · intro k fs hk
    obtain ⟨old, hold, heq⟩ := hfound k fs hk
    have hkeyed := h.frames k old hold
    cases heq with
    | inl heq => exact heq ▸ hkeyed
    | inr heq => exact heq ▸ hkeyed.insertIfNew hframe

end Building

/-! ### An object with one frame -/

/-- An object with one saved frame. -/
def oneFrameObject : ObjectDescriptor :=
  ((ObjectDescriptor.new (literal "obj") .shortTerm).addFrameset ⟨fun _ => .shortTerm, 0, fun _ _ => 0⟩
    (literal "fs") .shortTerm).addFrame (literal "fs") (literal "f")
    ⟨.ofName (literal "f"), .longTerm, 0, 1, 2⟩

def objectFrame : Frame := ⟨.ofName (literal "f"), .longTerm, 0, 1, 2⟩

def objectFrameset : Frameset :=
  (Frameset.new ⟨fun _ => .shortTerm, 0, fun _ _ => 0⟩ (literal "fs") .shortTerm).addFrame (literal "f")
    objectFrame

theorem oneFrameObject_getElem? (k : Bytes) :
    oneFrameObject.framesets[k]? = if compare (literal "fs") k = .eq then some objectFrameset else none := by
  have hfs : (ObjectID.ofName (literal "fs")).name = literal "fs" := by decide
  rw [oneFrameObject, ObjectDescriptor.addFrame, ObjectDescriptor.addFrameset, ObjectDescriptor.new,
    Std.ExtTreeMap.getElem?_modify, Std.ExtTreeMap.getElem?_insertIfNew,
    Std.ExtTreeMap.getElem?_insertIfNew, hfs,
    if_pos (⟨Std.ReflCmp.compare_self, Std.ExtTreeMap.not_mem_empty⟩ :
      compare (literal "fs") (literal "fs") = .eq ∧ literal "fs" ∉ (∅ : NameMap Frameset))]
  split_ifs with hk hnew
  · rfl
  · exact absurd hnew.1 hk
  · rfl

theorem objectFrameset_getElem? (k : Bytes) :
    objectFrameset.frames[k]? = if compare (literal "f") k = .eq then some objectFrame else none := by
  have hf : (ObjectID.ofName (literal "f")).name = literal "f" := by decide
  rw [objectFrameset, Frameset.addFrame, Std.ExtTreeMap.getElem?_insertIfNew, hf]
  split_ifs with hnew hk hk
  · rfl
  · exact absurd hnew.1 hk
  · exact absurd ⟨hk, Std.ExtTreeMap.not_mem_empty⟩ hnew
  · rfl

theorem oneFrameObject_frameset {k : Bytes} {fs : Frameset} (h : oneFrameObject.framesets[k]? = some fs) :
    k = literal "fs" ∧ fs = objectFrameset := by
  rw [oneFrameObject_getElem?] at h
  split_ifs at h with hk
  exact ⟨(Std.LawfulEqCmp.eq_of_compare hk).symm, (Option.some.inj h).symm⟩

theorem objectFrameset_frame {k : Bytes} {frame : Frame} (h : objectFrameset.frames[k]? = some frame) :
    k = literal "f" ∧ frame = objectFrame := by
  rw [objectFrameset_getElem?] at h
  split_ifs at h with hk
  exact ⟨(Std.LawfulEqCmp.eq_of_compare hk).symm, (Option.some.inj h).symm⟩

theorem oneFrameObject_savedFrameset {k : Bytes} (h : oneFrameObject.SavedFrameset k) :
    k = literal "fs" := by
  obtain ⟨fs, hfs, -⟩ := h
  exact (oneFrameObject_frameset hfs).1

theorem oneFrameObject_savedFrame {k k' : Bytes} (h : oneFrameObject.Saved k k') : k' = literal "f" := by
  obtain ⟨fs, frame, hfs, -, hframe, -⟩ := h
  obtain ⟨-, rfl⟩ := oneFrameObject_frameset hfs
  exact (objectFrameset_frame hframe).1

theorem oneFrameObject_plainNames : oneFrameObject.PlainNames where
  name := .of_mem (a := 111) (by decide) (by decide) (by decide)
  frameset := by
    intro k hk
    rw [oneFrameObject_savedFrameset hk]
    exact .of_mem (a := 102) (by decide) (by decide) (by decide)
  frame := by
    intro k k' hk
    rw [oneFrameObject_savedFrame hk]
    decide

end TmkDcl.Storage
