import Mathlib.Data.List.Monad
import TmkDcl.Kernel
import TmkDcl.SaveMiddle.SaveFormat
import TmkDcl.Storage.Store

/-!
# The save block (savemiddle.cpp)

`SaveBlock` with the settings that `saveMiddleConfig` has left. An exception ends the process.
-/

namespace TmkDcl.SaveMiddle

open TmkDcl.Storage

/-- The directories and the files with an image, by their places. -/
structure Disk (α : Type) where
  directories : List Bytes → Bool
  files : List Bytes → Option α

/-- What the encoder for the extension makes of an image; `raised` also without an encoder. -/
inductive Encoded where
  | image
  | refused
  | raised
  deriving DecidableEq

section Block

variable {α : Type}

def Disk.createDirectories (disk : Disk α) (start : List Bytes) (path : Bytes) : Option (Disk α) :=
  if (placesOn slash dot start path).any fun place => (disk.files place).isSome then none
  else some { disk with
    directories := fun place => disk.directories place || decide (place ∈ placesOn slash dot start path) }

/-- `cv::imwrite`; a file that cannot be opened is no exception. -/
def Disk.imwrite (disk : Disk α) (encode : Bytes → α → Encoded) (start : List Bytes) (path : Bytes)
    (img : α) : Option (Disk α) :=
  match encode path img with
  | .raised => none
  | .refused => some disk
  | .image =>
    let place := placeOf slash dot start path
    if disk.directories place.dropLast && !disk.directories place then
      some { disk with files := applyWrites disk.files [(place, some img)] }
    else some disk

def dirToSave (s : Settings) (framesetID : Bytes) : Bytes := s.pathToSave ++ slash :: framesetID

def fullPathToSave (s : Settings) (localtime : ℤ → Tm) (framesetID : Bytes) (frame : Frame) : Bytes :=
  dirToSave s framesetID ++ slash :: fileName s localtime frame

variable (encode : Bytes → α → Encoded) (localtime : ℤ → Tm) (start : List Bytes) (s : Settings)
variable (images : Bytes → Bytes → α)

/-- The body of the inner loop. -/
def saveFrame (framesetID : Bytes) (disk : Disk α) (kf : Bytes × Frame) : Option (Disk α) :=
  if kf.2.source = s.sourceN then
    disk.imwrite encode start (fullPathToSave s localtime framesetID kf.2) (images framesetID kf.1)
  else some disk

/-- The body of the outer loop. -/
def saveFrameset (disk : Disk α) (kv : Bytes × Frameset) : Option (Disk α) := do
  let disk ← disk.createDirectories start (dirToSave s kv.1)
  kv.2.frames.toList.foldlM (saveFrame encode localtime start s images kv.1) disk

def saveBlock (obj : ObjectDescriptor) (disk : Disk α) : Option (Disk α) :=
  obj.framesets.toList.foldlM (saveFrameset encode localtime start s images) disk

end Block

/-! ### The frames of the source -/

/-- A frame of the source, by the names of its frameset and its own. -/
def Chosen (s : Settings) (obj : ObjectDescriptor) (k k' : Bytes) (frame : Frame) : Prop :=
  ∃ fs, obj.framesets[k]? = some fs ∧ fs.frames[k']? = some frame ∧ frame.source = s.sourceN

/-- Where the frame is saved. -/
def placeOfFrame (localtime : ℤ → Tm) (start : List Bytes) (s : Settings) (k : Bytes) (frame : Frame) :
    List Bytes :=
  placeOf slash dot start (fullPathToSave s localtime k frame)

/-- Settings whose file names are names. -/
structure Settings.Plain (s : Settings) : Prop where
  wellFormed : WellFormed s.saveFormat
  group : bra ∈ s.saveFormat
  format : slash ∉ s.saveFormat
  extension : slash ∉ s.saveExtension
  extensionName : ∃ a ∈ s.saveExtension, a ≠ dot

/-- Nothing is in the way of the directories and of the frames. -/
structure Unblocked {α : Type} (encode : Bytes → α → Encoded) (localtime : ℤ → Tm) (start : List Bytes)
    (s : Settings) (images : Bytes → Bytes → α) (obj : ObjectDescriptor) (disk : Disk α) : Prop where
  files : ∀ k ∈ obj.framesets, ∀ place ∈ placesOn slash dot start (dirToSave s k), disk.files place = none
  frames : ∀ k ∈ obj.framesets, ∀ place ∈ placesOn slash dot start (dirToSave s k), ∀ c c' frame,
    Chosen s obj c c' frame → placeOfFrame localtime start s c frame ≠ place
  directories : ∀ k k' frame, Chosen s obj k k' frame →
    disk.directories (placeOfFrame localtime start s k frame) = false
  encode : ∀ k k' frame, Chosen s obj k k' frame →
    encode (fullPathToSave s localtime k frame) (images k k') ≠ .raised

/-! ### Names of files -/

section Names

variable {s : Settings} {localtime : ℤ → Tm} {frame frame' : Frame} {k k' : Bytes} {start : List Bytes}

theorem slash_not_mem_putTime (tm : Tm) : slash ∉ putTime tm := by
  have hdigit : slash < 48 ∨ 57 < slash := by decide
  have hcolon : slash ∉ literal ":" := by decide
  simp only [putTime, List.mem_append, not_or, hcolon, not_mem_padded _ hdigit, not_false_eq_true, and_self]

theorem slash_not_mem_asctime (tm : Tm) : slash ∉ asctime tm := by
  have hwday : ∀ n : Fin 7, slash ∉ wdayName n := by decide
  have hmon : ∀ n : Fin 12, slash ∉ monName n := by decide
  have hblanks : ∀ k : ℕ, slash ∉ List.replicate k (32 : UInt8) := fun k h =>
    absurd (List.eq_of_mem_replicate h) (by decide)
  have hdigit : slash < 48 ∨ 57 < slash := by decide
  have hblank : slash ∉ literal " " := by decide
  have hend : slash ∉ literal "\n" := by decide
  simp only [asctime, spaced, List.mem_append, not_or, hwday, hmon, hblanks, hblank, hend,
    slash_not_mem_putTime, not_mem_digits _ hdigit, not_mem_decimal _ hdigit (by decide), not_false_eq_true,
    and_self]

theorem Group.text_subset {g : Group} {head : Bytes} {groups : List Group} {hhead : bra ∉ head}
    (hg : g ∈ groups) : g.text ⊆ Template.render ⟨head, groups, hhead⟩ := by
  intro a ha
  apply List.mem_append_right
  rw [List.mem_flatMap]
  refine ⟨g, hg, List.mem_append_right _ (List.mem_cons_of_mem _ ha)⟩

/-- What is filled in has the characters of the format, the name and the time. -/
theorem Template.slash_not_mem_fill (t : Template) (hformat : slash ∉ t.render) (hname : slash ∉ k)
    (tm : Tm) : slash ∉ t.fill k tm := by
  obtain ⟨head, groups, hhead⟩ := t
  have hheadSlash : slash ∉ head := fun h => hformat (List.mem_append_left _ h)
  have htext : ∀ g ∈ groups, slash ∉ g.text := fun g hg h => hformat (Group.text_subset hg h)
  cases groups with
  | nil => exact hheadSlash
  | cons first groups =>
    cases groups with
    | nil =>
      simp only [Template.fill, List.mem_append, not_or]
      exact ⟨⟨hheadSlash, hname⟩, htext first List.mem_cons_self⟩
    | cons second groups =>
      have hfirst := htext first List.mem_cons_self
      have hsecond := htext second (List.mem_cons_of_mem _ List.mem_cons_self)
      cases groups with
      | nil =>
        simp only [Template.fill, List.mem_append, not_or]
        exact ⟨⟨⟨⟨hheadSlash, hname⟩, hfirst⟩, slash_not_mem_putTime tm⟩, hsecond⟩
      | cons third groups =>
        have hline : slash ∉ literal "_" := by decide
        simp only [Template.fill, List.mem_append, not_or]
        exact ⟨⟨hname, hline⟩, slash_not_mem_asctime tm⟩

theorem Template.groups_ne_nil {t : Template} (h : bra ∈ t.render) : t.groups ≠ [] := by
  obtain ⟨head, groups, hhead⟩ := t
  rintro rfl
  exact hhead (by simpa [Template.render] using h)

theorem Settings.Plain.fileName (hs : s.Plain) (hname : slash ∉ frame.id.name) :
    PlainName slash dot (fileName s localtime frame) := by
  obtain ⟨t, ht⟩ := hs.wellFormed.exists_template
  obtain ⟨a, ha, hne⟩ := hs.extensionName
  have hformat : slash ∉ t.render := ht ▸ hs.format
  have hdot : slash ∉ literal "." := by decide
  apply PlainName.of_mem _ (List.mem_append_right _ ha) hne
  rw [← ht, saveFormat_render, List.mem_append, List.mem_append, not_or, not_or]
  exact ⟨⟨t.slash_not_mem_fill hformat hname _, hdot⟩, hs.extension⟩

theorem Settings.Plain.name_eq (hs : s.Plain)
    (h : SaveMiddle.fileName s localtime frame = SaveMiddle.fileName s localtime frame') :
    frame.id.name = frame'.id.name := by
  obtain ⟨t, ht⟩ := hs.wellFormed.exists_template
  have hgroups : t.groups ≠ [] := Template.groups_ne_nil (ht ▸ hs.group)
  rw [SaveMiddle.fileName, SaveMiddle.fileName, ← ht, saveFormat_render, saveFormat_render] at h
  exact t.fill_injective hgroups (List.append_cancel_right (List.append_cancel_right h))

theorem dirToSave_ne_nil : dirToSave s k ≠ [] := by
  simp [dirToSave]

theorem placeOf_dirToSave (hk : PlainName slash dot k) : placeOf slash dot start (dirToSave s k) =
    placeOf slash dot start (s.pathToSave ++ [slash]) ++ [k] := placeOf_append hk

theorem placeOfFrame_eq (hs : s.Plain) (hname : slash ∉ frame.id.name) :
    placeOfFrame localtime start s k frame =
      placeOf slash dot start (dirToSave s k) ++ [fileName s localtime frame] := by
  rw [placeOfFrame, fullPathToSave, placeOf_append (hs.fileName hname), placeOf_append_sep dirToSave_ne_nil]

/-- Frames of different names or framesets are saved in different places. -/
theorem placeOfFrame_inj (hs : s.Plain) (hk : PlainName slash dot k) (hk' : PlainName slash dot k')
    (hname : slash ∉ frame.id.name) (hname' : slash ∉ frame'.id.name)
    (h : placeOfFrame localtime start s k frame = placeOfFrame localtime start s k' frame') :
    k = k' ∧ frame.id.name = frame'.id.name := by
  rw [placeOfFrame_eq hs hname, placeOfFrame_eq hs hname', placeOf_dirToSave hk, placeOf_dirToSave hk'] at h
  obtain ⟨hdir, hfile⟩ := List.append_inj' h rfl
  obtain ⟨-, hkeys⟩ := List.append_inj' hdir rfl
  exact ⟨(List.cons.inj hkeys).1, hs.name_eq (List.cons.inj hfile).1⟩

end Names

/-! ### The run -/

section Run

variable {α : Type} {encode : Bytes → α → Encoded} {localtime : ℤ → Tm} {start : List Bytes}
variable {s : Settings} {images : Bytes → Bytes → α} {obj : ObjectDescriptor} {disk : Disk α}
variable {k k' : Bytes} {fs : Frameset} {kf : Bytes × Frame} {frame : Frame}

/-- The names of an object are names of files. -/
structure PlainNames (s : Settings) (obj : ObjectDescriptor) : Prop where
  keyed : obj.WellKeyed
  frameset : ∀ k ∈ obj.framesets, PlainName slash dot k
  frame : ∀ k k' frame, Chosen s obj k k' frame → slash ∉ k'

/-- What the frames of a frameset write. -/
def frameWrites (encode : Bytes → α → Encoded) (localtime : ℤ → Tm) (start : List Bytes) (s : Settings)
    (images : Bytes → Bytes → α) (k : Bytes) (frames : List (Bytes × Frame)) :
    List (List Bytes × Option α) :=
  (frames.filter fun kf => kf.2.source = s.sourceN ∧
      encode (fullPathToSave s localtime k kf.2) (images k kf.1) = .image).map
    fun kf => (placeOfFrame localtime start s k kf.2, some (images k kf.1))

theorem PlainNames.name (hobj : PlainNames s obj) (h : Chosen s obj k k' frame) :
    frame.id.name = k' ∧ slash ∉ frame.id.name := by
  have hslash := hobj.frame k k' frame h
  obtain ⟨fs, hfs, hframe, -⟩ := h
  have hname := (hobj.keyed.frames k fs hfs k' frame hframe).1
  exact ⟨hname, hname ▸ hslash⟩

theorem saveFrame_eq (hs : s.Plain) (hdir : disk.directories (placeOf slash dot start (dirToSave s k)) = true)
    (hframe : kf.2.source = s.sourceN → slash ∉ kf.2.id.name ∧
      disk.directories (placeOfFrame localtime start s k kf.2) = false ∧
      encode (fullPathToSave s localtime k kf.2) (images k kf.1) ≠ .raised) :
    saveFrame encode localtime start s images k disk kf = some { disk with
      files := applyWrites disk.files (frameWrites encode localtime start s images k [kf]) } := by
  by_cases hsource : kf.2.source = s.sourceN
  · obtain ⟨hname, hplace, hraised⟩ := hframe hsource
    have hplaceEq : placeOf slash dot start (fullPathToSave s localtime k kf.2) =
        placeOf slash dot start (dirToSave s k) ++ [fileName s localtime kf.2] := placeOfFrame_eq hs hname
    have hopen : (disk.directories (placeOfFrame localtime start s k kf.2).dropLast &&
        !disk.directories (placeOfFrame localtime start s k kf.2)) = true := by
      rw [hplace, placeOfFrame, hplaceEq, List.dropLast_concat, hdir]
      rfl
    rw [saveFrame, if_pos hsource, Disk.imwrite]
    cases hencode : encode (fullPathToSave s localtime k kf.2) (images k kf.1) with
    | raised => exact absurd hencode hraised
    | refused => simp [frameWrites, hencode, applyWrites]
    | image =>
      have hwrites : frameWrites encode localtime start s images k [kf] =
          [(placeOfFrame localtime start s k kf.2, some (images k kf.1))] := by
        simp [frameWrites, hsource, hencode]
      rw [hwrites]
      exact if_pos hopen
  · rw [saveFrame, if_neg hsource]
    simp [frameWrites, hsource, applyWrites]

theorem saveFrames_eq (hs : s.Plain) {frames : List (Bytes × Frame)}
    (hdir : disk.directories (placeOf slash dot start (dirToSave s k)) = true)
    (hframes : ∀ kf ∈ frames, kf.2.source = s.sourceN → slash ∉ kf.2.id.name ∧
      disk.directories (placeOfFrame localtime start s k kf.2) = false ∧
      encode (fullPathToSave s localtime k kf.2) (images k kf.1) ≠ .raised) :
    frames.foldlM (saveFrame encode localtime start s images k) disk = some { disk with
      files := applyWrites disk.files (frameWrites encode localtime start s images k frames) } := by
  induction frames generalizing disk with
  | nil => rfl
  | cons kf frames ih =>
    have hone := saveFrame_eq hs hdir (hframes kf List.mem_cons_self)
    have hrest := fun kf' hkf' => hframes kf' (List.mem_cons_of_mem kf hkf')
    have hwrites : frameWrites encode localtime start s images k (kf :: frames) =
        frameWrites encode localtime start s images k [kf] ++
          frameWrites encode localtime start s images k frames := by
      rw [frameWrites, ← List.singleton_append, List.filter_append, List.map_append]
      rfl
    rw [List.foldlM_cons, hone, hwrites, applyWrites_append]
    exact ih hdir hrest

/-- The disk when a frameset has been saved. -/
def Disk.withFrameset (disk : Disk α) (encode : Bytes → α → Encoded) (localtime : ℤ → Tm)
    (start : List Bytes) (s : Settings) (images : Bytes → Bytes → α) (kv : Bytes × Frameset) : Disk α where
  directories := fun place =>
    disk.directories place || decide (place ∈ placesOn slash dot start (dirToSave s kv.1))
  files := applyWrites disk.files (frameWrites encode localtime start s images kv.1 kv.2.frames.toList)

theorem chosen_of_mem (hfs : (k, fs) ∈ obj.framesets.toList) (hkf : kf ∈ fs.frames.toList)
    (hsource : kf.2.source = s.sourceN) : Chosen s obj k kf.1 kf.2 :=
  ⟨fs, Std.ExtTreeMap.mem_toList_iff_getElem?_eq_some.mp hfs,
    Std.ExtTreeMap.mem_toList_iff_getElem?_eq_some.mp hkf, hsource⟩

theorem mem_of_mem_toList (hfs : (k, fs) ∈ obj.framesets.toList) : k ∈ obj.framesets := by
  rw [← Std.ExtTreeMap.isSome_getElem?_iff_mem, Std.ExtTreeMap.mem_toList_iff_getElem?_eq_some.mp hfs]
  rfl

theorem Unblocked.saveFrameset (h : Unblocked encode localtime start s images obj disk) (hs : s.Plain)
    (hobj : PlainNames s obj) (hfs : (k, fs) ∈ obj.framesets.toList) :
    saveFrameset encode localtime start s images disk (k, fs) =
        some (disk.withFrameset encode localtime start s images (k, fs)) ∧
      Unblocked encode localtime start s images obj
        (disk.withFrameset encode localtime start s images (k, fs)) := by
  have hk := mem_of_mem_toList hfs
  have hfree : ¬ (placesOn slash dot start (dirToSave s k)).any
      (fun place => (disk.files place).isSome) = true := by
    simp only [List.any_eq_true, not_exists, not_and]
    intro place hplace
    rw [h.files k hk place hplace]
    exact Bool.false_ne_true
  have hdirectories : ∀ c c' frame, Chosen s obj c c' frame →
      (disk.directories (placeOfFrame localtime start s c frame) || decide (placeOfFrame localtime start s c
        frame ∈ placesOn slash dot start (dirToSave s k))) = false := by
    intro c c' frame hchosen
    rw [h.directories c c' frame hchosen, Bool.false_or, decide_eq_false_iff_not]
    exact fun hmem => h.frames k hk _ hmem c c' frame hchosen rfl
  constructor
  · rw [SaveMiddle.saveFrameset, Disk.createDirectories, if_neg hfree]
    refine saveFrames_eq hs ?_ fun kf hkf hsource => ?_
    · show (disk.directories _ || decide _) = true
      rw [decide_eq_true placeOf_mem_placesOn, Bool.or_true]
    · have hchosen := chosen_of_mem hfs hkf hsource
      exact ⟨(hobj.name hchosen).2, hdirectories k kf.1 kf.2 hchosen, h.encode k kf.1 kf.2 hchosen⟩
  · refine ⟨fun c hc place hplace => ?_, h.frames, hdirectories, h.encode⟩
    have hnone : lastWrite place (frameWrites encode localtime start s images k fs.frames.toList) = none := by
      rw [lastWrite_eq_none]
      intro w hw
      obtain ⟨kf, hkf, rfl⟩ := List.mem_map.mp hw
      obtain ⟨hmem, hcond⟩ := List.mem_filter.mp hkf
      exact h.frames c hc place hplace k kf.1 kf.2 (chosen_of_mem hfs hmem (of_decide_eq_true hcond).1)
    show applyWrites disk.files _ place = none
    rw [applyWrites_apply, hnone]
    exact h.files c hc place hplace

theorem Unblocked.saveFramesets (h : Unblocked encode localtime start s images obj disk) (hs : s.Plain)
    (hobj : PlainNames s obj) {framesets : List (Bytes × Frameset)}
    (hsub : ∀ kv ∈ framesets, kv ∈ obj.framesets.toList) :
    ∃ disk', framesets.foldlM (SaveMiddle.saveFrameset encode localtime start s images) disk = some disk' ∧
      disk'.files = applyWrites disk.files (framesets.flatMap fun kv =>
        frameWrites encode localtime start s images kv.1 kv.2.frames.toList) := by
  induction framesets generalizing disk with
  | nil => exact ⟨disk, rfl, rfl⟩
  | cons kv framesets ih =>
    obtain ⟨hone, hnext⟩ := h.saveFrameset hs hobj (hsub kv List.mem_cons_self)
    obtain ⟨disk', hrun, hfiles⟩ := ih hnext fun kv' hkv' => hsub kv' (List.mem_cons_of_mem kv hkv')
    refine ⟨disk', ?_, ?_⟩
    · rw [List.foldlM_cons, hone]
      exact hrun
    · rw [hfiles, List.flatMap_cons, applyWrites_append]
      rfl

/-- What the frames of all framesets write. -/
def blockWrites (encode : Bytes → α → Encoded) (localtime : ℤ → Tm) (start : List Bytes) (s : Settings)
    (images : Bytes → Bytes → α) (obj : ObjectDescriptor) : List (List Bytes × Option α) :=
  obj.framesets.toList.flatMap fun kv =>
    frameWrites encode localtime start s images kv.1 kv.2.frames.toList

theorem mem_blockWrites {w : List Bytes × Option α} :
    w ∈ blockWrites encode localtime start s images obj ↔ ∃ k k' frame, Chosen s obj k k' frame ∧
      encode (fullPathToSave s localtime k frame) (images k k') = .image ∧
      (placeOfFrame localtime start s k frame, some (images k k')) = w := by
  rw [blockWrites, List.mem_flatMap]
  constructor
  · rintro ⟨kv, hkv, hw⟩
    obtain ⟨kf, hkf, rfl⟩ := List.mem_map.mp hw
    obtain ⟨hmem, hcond⟩ := List.mem_filter.mp hkf
    obtain ⟨hsource, hencode⟩ := of_decide_eq_true hcond
    exact ⟨kv.1, kf.1, kf.2, chosen_of_mem hkv hmem hsource, hencode, rfl⟩
  · rintro ⟨k, k', frame, ⟨fs, hfs, hframe, hsource⟩, hencode, rfl⟩
    have hkf : (k', frame) ∈ fs.frames.toList := Std.ExtTreeMap.mem_toList_iff_getElem?_eq_some.mpr hframe
    have hkv : (k, fs) ∈ obj.framesets.toList := Std.ExtTreeMap.mem_toList_iff_getElem?_eq_some.mpr hfs
    exact ⟨(k, fs), hkv, List.mem_map.mpr
      ⟨(k', frame), List.mem_filter.mpr ⟨hkf, decide_eq_true ⟨hsource, hencode⟩⟩, rfl⟩⟩

theorem PlainNames.of_chosen (hobj : PlainNames s obj) (h : Chosen s obj k k' frame) :
    PlainName slash dot k := by
  obtain ⟨fs, hfs, -⟩ := h
  exact hobj.frameset k (mem_of_mem_toList (Std.ExtTreeMap.mem_toList_iff_getElem?_eq_some.mpr hfs))

/-- The place of a frame tells which one it is. -/
theorem PlainNames.eq_of_place (hs : s.Plain) (hobj : PlainNames s obj) {c c' : Bytes} {frame' : Frame}
    (h : Chosen s obj k k' frame) (h' : Chosen s obj c c' frame')
    (heq : placeOfFrame localtime start s k frame = placeOfFrame localtime start s c frame') :
    k = c ∧ k' = c' ∧ frame = frame' := by
  obtain ⟨hname, hslash⟩ := hobj.name h
  obtain ⟨hname', hslash'⟩ := hobj.name h'
  obtain ⟨rfl, hnames⟩ := placeOfFrame_inj hs (hobj.of_chosen h) (hobj.of_chosen h') hslash hslash' heq
  have hkeys : k' = c' := hname ▸ hname' ▸ hnames
  subst hkeys
  obtain ⟨fs, hfs, hframe, -⟩ := h
  obtain ⟨fs', hfs', hframe', -⟩ := h'
  rw [hfs, Option.some.injEq] at hfs'
  subst hfs'
  rw [hframe, Option.some.injEq] at hframe'
  exact ⟨rfl, rfl, hframe'⟩

/-- Every frame of the source gets a file of its own, and no other file changes. -/
theorem saveBlock_keeps (hs : s.Plain) (hobj : PlainNames s obj)
    (h : Unblocked encode localtime start s images obj disk) :
    ∃ disk', saveBlock encode localtime start s images obj disk = some disk' ∧
      (∀ k k' frame, Chosen s obj k k' frame →
        disk'.files (placeOfFrame localtime start s k frame) =
          if encode (fullPathToSave s localtime k frame) (images k k') = .image then some (images k k')
          else disk.files (placeOfFrame localtime start s k frame)) ∧
      ∀ place, (∀ k k' frame, Chosen s obj k k' frame → placeOfFrame localtime start s k frame ≠ place) →
        disk'.files place = disk.files place := by
  obtain ⟨disk', hrun, hfiles⟩ := h.saveFramesets hs hobj (fun kv hkv => hkv)
  have hcell : ∀ place, disk'.files place =
      (lastWrite place (blockWrites encode localtime start s images obj)).getD (disk.files place) := by
    intro place
    rw [hfiles]
    exact applyWrites_apply _ _ _
  refine ⟨disk', hrun, fun k k' frame hchosen => ?_, fun place hother => ?_⟩
  · rw [hcell]
    split_ifs with hencode
    · rw [lastWrite_of_forall (mem_blockWrites.mpr ⟨k, k', frame, hchosen, hencode, rfl⟩)]
      · rfl
      · intro v hv
        obtain ⟨c, c', frame', hchosen', -, hw⟩ := mem_blockWrites.mp hv
        obtain ⟨heq, rfl⟩ := Prod.mk.inj hw
        obtain ⟨rfl, rfl, -⟩ := hobj.eq_of_place hs hchosen' hchosen heq
        rfl
    · have hnone : lastWrite (placeOfFrame localtime start s k frame)
          (blockWrites encode localtime start s images obj) = none := by
        rw [lastWrite_eq_none]
        intro w hw heq
        obtain ⟨c, c', frame', hchosen', hencode', rfl⟩ := mem_blockWrites.mp hw
        obtain ⟨rfl, rfl, rfl⟩ := hobj.eq_of_place hs hchosen' hchosen heq
        exact hencode hencode'
      rw [hnone]
      rfl
  · have hnone : lastWrite place (blockWrites encode localtime start s images obj) = none := by
      rw [lastWrite_eq_none]
      intro w hw
      obtain ⟨k, k', frame, hchosen, -, rfl⟩ := mem_blockWrites.mp hw
      exact hother k k' frame hchosen
    rw [hcell, hnone]
    rfl

end Run

/-! ### An object with one frame -/

/-- The default settings for the source of the frame. -/
def sourceTwo : Settings := ⟨true, 2, defaultSaveFormat, defaultPathToSave, defaultSaveExtension⟩

theorem sourceTwo_plain : sourceTwo.Plain where
  wellFormed := default_wellFormed
  group := by decide
  format := by decide
  extension := by decide
  extensionName := ⟨116, by decide, by decide⟩

theorem oneFrameObject_chosen {k k' : Bytes} {frame : Frame}
    (h : Chosen sourceTwo oneFrameObject k k' frame) : k = literal "fs" ∧ k' = literal "f" := by
  obtain ⟨fs, hfs, hframe, -⟩ := h
  obtain ⟨hk, rfl⟩ := oneFrameObject_frameset hfs
  exact ⟨hk, (objectFrameset_frame hframe).1⟩

theorem chosen_oneFrame : Chosen sourceTwo oneFrameObject (literal "fs") (literal "f") objectFrame := by
  refine ⟨objectFrameset, ?_, ?_, rfl⟩
  · rw [oneFrameObject_getElem?, if_pos Std.ReflCmp.compare_self]
  · rw [objectFrameset_getElem?, if_pos Std.ReflCmp.compare_self]

theorem oneFrameObject_plainNames : PlainNames sourceTwo oneFrameObject where
  keyed := wellKeyed_new.addFrameset.addFrame rfl
  frameset := by
    intro k hk
    obtain ⟨fs, hfs⟩ := Option.isSome_iff_exists.mp (Std.ExtTreeMap.isSome_getElem?_iff_mem.mpr hk)
    rw [(oneFrameObject_frameset hfs).1]
    exact .of_mem (a := 102) (by decide) (by decide) (by decide)
  frame := by
    intro k k' frame h
    rw [(oneFrameObject_chosen h).2]
    decide

/-- An empty disk and an encoder for everything. -/
theorem saveBlock_keeps_oneFrame : ∃ disk', saveBlock (fun _ _ => .image) (fun _ => midnight) []
      sourceTwo (fun _ _ => colorPixel) oneFrameObject ⟨fun _ => false, fun _ => none⟩ = some disk' ∧
    disk'.files (placeOfFrame (fun _ => midnight) [] sourceTwo (literal "fs") objectFrame) =
      some colorPixel := by
  have hlength : ∀ place ∈ placesOn slash dot [] (dirToSave sourceTwo (literal "fs")), place.length ≤ 3 := by
    decide
  have hdir : (placeOf slash dot [] (dirToSave sourceTwo (literal "fs"))).length = 3 := by decide
  have hblocked : Unblocked (fun _ _ => .image) (fun _ => midnight) [] sourceTwo (fun _ _ => colorPixel)
      oneFrameObject ⟨fun _ => false, fun _ => none⟩ := by
    refine ⟨fun _ _ _ _ => rfl, fun k hk place hplace c c' frame h heq => ?_, fun _ _ _ _ => rfl,
      fun _ _ _ _ => by decide⟩
    obtain ⟨fs, hfs⟩ := Option.isSome_iff_exists.mp (Std.ExtTreeMap.isSome_getElem?_iff_mem.mpr hk)
    rw [(oneFrameObject_frameset hfs).1] at hplace
    rw [(oneFrameObject_chosen h).1,
      placeOfFrame_eq sourceTwo_plain (oneFrameObject_plainNames.name h).2] at heq
    have hshort := hlength place hplace
    rw [← heq, List.length_append, hdir, List.length_singleton] at hshort
    exact absurd hshort (by decide)
  obtain ⟨disk', hrun, hfiles, -⟩ := saveBlock_keeps sourceTwo_plain oneFrameObject_plainNames hblocked
  exact ⟨disk', hrun, hfiles _ _ _ chosen_oneFrame⟩

end TmkDcl.SaveMiddle
