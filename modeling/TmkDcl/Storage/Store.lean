import TmkDcl.Storage.DescriptorsDB

/-!
# The store (DescriptorsDB.cpp)

Saves of many objects, one after the other, under a directory that is empty at first. `load` changes no
file.
-/

namespace TmkDcl.Storage

open TmkDcl (Json JsonError)

/-- An object that is saved, with its images. Its names are texts and names of files. -/
structure Saving where
  obj : ObjectDescriptor
  images : Images
  keyed : obj.WellKeyed
  plain : obj.PlainNames
  name : utf8 obj.id.name = true
  frameset : ∀ k, obj.SavedFrameset k → utf8 k = true ∧ k ≠ desctiptorJsonFilename
  frame : ∀ k k', obj.Saved k k' → utf8 k' = true

/-! ### Files -/

inductive StoreFile where
  | descriptor (name : Bytes)
  | png (name framesetName frameName : Bytes)
  | dat (name framesetName frameName : Bytes)

def StoreFile.path (start : List Bytes) (root : Bytes) : StoreFile → Path
  | .descriptor name => descriptorPath start root name
  | .png name k k' => (imagePath start root name k k').suffixed ".png"
  | .dat name k k' => (imagePath start root name k k').suffixed ".dat"

/-- A file that one of the saves can write. -/
inductive Written (history : List Saving) : StoreFile → Prop
  | descriptor (saving : Saving) (h : saving ∈ history) : Written history (.descriptor saving.obj.id.name)
  | png (saving : Saving) (h : saving ∈ history) (k k' : Bytes) (hsaved : saving.obj.Saved k k') :
      Written history (.png saving.obj.id.name k k')
  | dat (saving : Saving) (h : saving ∈ history) (k k' : Bytes) (hsaved : saving.obj.Saved k k') :
      Written history (.dat saving.obj.id.name k k')

section Files

variable {start : List Bytes} {root : Bytes} {history : List Saving} {file other : StoreFile}

/-- The names on the way from the root to a file of the store. -/
def StoreFile.names : StoreFile → List Bytes
  | .descriptor name => [name, desctiptorJsonFilename]
  | .png name k k' => [name, k, k' ++ literal ".png"]
  | .dat name k k' => [name, k, k' ++ literal ".dat"]

theorem Written.path_eq (h : Written history file) :
    (file.path start root).dir ++ [(file.path start root).name] = rootPlace start root ++ file.names := by
  cases h with
  | descriptor saving h =>
    rw [StoreFile.path, descriptorPath_eq saving.plain.name]
    simp [StoreFile.names]
  | png saving h k k' hsaved =>
    rw [StoreFile.path, saving.plain.imagePath_eq hsaved]
    simp [StoreFile.names, Path.suffixed]
  | dat saving h k k' hsaved =>
    rw [StoreFile.path, saving.plain.imagePath_eq hsaved]
    simp [StoreFile.names, Path.suffixed]

theorem StoreFile.names_inj (h : file.names = other.names) : file = other := by
  have hsuffix : ∀ {a b : Bytes}, a ++ literal ".png" ≠ b ++ literal ".dat" := by
    intro a b heq
    exact absurd (List.append_inj' heq rfl).2 (by decide)
  cases file with
  | descriptor name =>
    cases other with
    | descriptor _ => exact congrArg _ (List.cons.inj h).1
    | _ => exact absurd (congrArg List.length h) (by simp [StoreFile.names])
  | png name k k' =>
    cases other with
    | descriptor _ => exact absurd (congrArg List.length h) (by simp [StoreFile.names])
    | png _ _ _ => simpa [StoreFile.names] using h
    | dat _ _ _ => simp [StoreFile.names, hsuffix] at h
  | dat name k k' =>
    cases other with
    | descriptor _ => exact absurd (congrArg List.length h) (by simp [StoreFile.names])
    | png _ _ _ => simp [StoreFile.names, hsuffix.symm] at h
    | dat _ _ _ => simpa [StoreFile.names] using h

/-- Different files of the store are in different places. -/
theorem Written.eq_of_path (h : Written history file) (h' : Written history other)
    (heq : file.path start root = other.path start root) : file = other := by
  apply StoreFile.names_inj
  have hplaces : rootPlace start root ++ file.names = rootPlace start root ++ other.names := by
    rw [← h.path_eq, ← h'.path_eq, heq]
  exact List.append_cancel_left hplaces

end Files

/-! ### Saves of many objects -/

section Saves

variable {codec : Codec} {mem : Memory} {text : ℤ → Bytes} {start : List Bytes} {root : Bytes}
variable {disk disk' : Disk} {history before after : List Saving} {saving : Saving}
variable {name k k' : Bytes} {suffix : String} {path : Path}

/-- One save after the other. -/
def savesOn (codec : Codec) (text : ℤ → Bytes) (start : List Bytes) (root : Bytes) (disk : Disk)
    (history : List Saving) : Option Disk :=
  history.foldlM (fun disk saving => save start root codec text saving.obj saving.images disk) disk

/-- The store after its saves. -/
def store (codec : Codec) (text : ℤ → Bytes) (start : List Bytes) (root : Bytes)
    (history : List Saving) : Option Disk :=
  savesOn codec text start root (fun _ => none) history

/-- No file has the name of a directory that a save makes. -/
structure FreeDirectories (start : List Bytes) (root : Bytes) (disk : Disk) : Prop where
  object : ∀ name, disk ⟨rootPlace start root, name⟩ = none
  frameset : ∀ name k, k ≠ desctiptorJsonFilename → disk ⟨rootPlace start root ++ [name], k⟩ = none

/-- A save writes its descriptor, and else only files two directories below the root. -/
theorem savedDisk_above (saving : Saving) (disk : Disk) (h : path.dir.length ≤ (rootPlace start root).length + 1) :
    savedDisk codec text start root saving.obj saving.images disk path =
      if path = descriptorPath start root saving.obj.id.name then some (.json (saving.obj.toJson text))
      else disk path := by
  rw [savedDisk, saves_elsewhere, Function.update_apply]
  intro e he hdir
  obtain ⟨c, c', hc, rfl⟩ := (mem_savedImages saving.keyed).mp he
  rw [saving.plain.imagePath_eq hc] at hdir
  have hlength := congrArg List.length hdir
  simp only [List.length_append, List.length_singleton] at hlength
  omega

theorem FreeDirectories.savedDisk (h : FreeDirectories start root disk) (saving : Saving) :
    FreeDirectories start root (savedDisk codec text start root saving.obj saving.images disk) where
  object := by
    intro name
    rw [savedDisk_above saving disk (Nat.le_succ _), if_neg, h.object]
    rw [descriptorPath_eq saving.plain.name]
    intro heq
    exact absurd (congrArg (fun path => path.dir.length) heq) (by simp)
  frameset := by
    intro name k hk
    rw [savedDisk_above saving disk (by simp), if_neg, h.frameset name k hk]
    rw [descriptorPath_eq saving.plain.name]
    intro heq
    exact hk (Path.mk.inj heq).2

end Saves

end TmkDcl.Storage
