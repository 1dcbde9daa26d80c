import Mathlib.Data.List.Basic
import Mathlib.Logic.Function.Basic
import TmkDcl.Lts

/-!
# The beats that are saved (tools/spinnaker/src/captureManager.cpp)

In each beat `CaptureManager::run` takes one complete image of each camera, and it saves them if
`mStoreThisBeat` is set, which `storeOnce` does from the thread of the window. The files are numbered by the
beats that were saved.
-/

namespace TmkDcl.Spinnaker

/-- `CaptureManager::run` (`captureManager.cpp:172-307`); its cameras get ready behind `begin`. -/
inductive RunPc where
  | begin
  | warmUp (k : ℕ)
  | first (i : ℕ)
  | failed (i : ℕ)
  | test
  | grab (i : ℕ)
  | storeBeat
  | save (i : ℕ)
  | rearm
  | count
  | recheck
  | returned
  deriving DecidableEq

/-- A call of `Save`: which image of which camera, and the number in the name of the file. -/
structure SavedFrame where
  camera : ℕ
  number : ℕ
  image : Option ℕ
  deriving DecidableEq

/-- `images` is what `GetNextImage` has given for each camera, `true` for a complete image, and `frames` has the
places of the images that `frames` holds. `kept` says of each beat that was tested whether it is saved. -/
structure Recorder where
  pc : RunPc
  doCapture : Bool
  mStoreThisBeat : Bool
  j : ℕ
  images : ℕ → List Bool
  frames : ℕ → Option ℕ
  files : List SavedFrame
  kept : List Bool

inductive RecorderLabel where
  | run (complete : Bool)
  | storeOnce
  | stop
  deriving DecidableEq

def Recorder.getNextImage (s : Recorder) (i : ℕ) (complete : Bool) : Recorder :=
  { s with images := Function.update s.images i (s.images i ++ [complete]) }

/-- A complete image, and `Convert` into `frames[i]`. -/
def Recorder.convert (s : Recorder) (i : ℕ) : Recorder :=
  { s.getNextImage i true with frames := Function.update s.frames i (some (s.images i).length) }

/-- One statement of `run`. An incomplete image in the loop that makes `frames` is followed by
`pResultImage = !pCameras[i]->GetNextImage()`, which is no image, and the thread fails there. -/
def Recorder.run (count : ℕ) (mStoreStream : Bool) (s : Recorder) (complete : Bool) : Option Recorder :=
  match s.pc with
  | .begin =>
    if count = 0 then some { s with pc := .returned }
    else some { s with mStoreThisBeat := mStoreStream, pc := .warmUp 0 }
  | .warmUp k =>
    some { s.getNextImage 0 complete with
      pc := if complete then (if k + 1 < 3 then .warmUp (k + 1) else .first 0) else .warmUp k }
  | .first i =>
    if i < count then
      if complete then some { s.convert i with pc := .first (i + 1) }
      else some { s.getNextImage i false with pc := .failed i }
    else some { s with pc := .test }
  | .test => some { s with pc := if s.doCapture then .grab 0 else .returned }
  | .grab i =>
    if i < count then
      if complete then some { s.convert i with pc := .grab (i + 1) } else some (s.getNextImage i false)
    else some { s with pc := .storeBeat }
  | .storeBeat =>
    some { s with kept := s.kept ++ [s.mStoreThisBeat], pc := if s.mStoreThisBeat then .save 0 else .recheck }
  | .save i =>
    if i < count then some { s with files := s.files ++ [⟨i, s.j, s.frames i⟩], pc := .save (i + 1) }
    else some { s with pc := .rearm }
  | .rearm => some { s with mStoreThisBeat := mStoreStream, pc := .count }
  | .count => some { s with j := s.j + 1, pc := .recheck }
  | .recheck => some { s with pc := if s.doCapture then .test else .returned }
  | .failed _ => none
  | .returned => none

def Recorder.step (count : ℕ) (mStoreStream : Bool) (s : Recorder) : RecorderLabel → Option Recorder
  | .run complete => s.run count mStoreStream complete
  | .storeOnce => some { s with mStoreThisBeat := true }
  | .stop => some { s with doCapture := false }

/-- The state in which the thread of `run` is created; `mStoreThisBeat` has not been set yet. -/
def Recorder.initial (mStoreThisBeat : Bool) : Recorder :=
  ⟨.begin, true, mStoreThisBeat, 0, fun _ => [], fun _ => none, [], []⟩

def recording (count : ℕ) (mStoreStream : Bool) : Lts Recorder RecorderLabel where
  init s := ∃ b, s = .initial b
  step := Recorder.step count mStoreStream

/-! ### Images and beats -/

/-- The places of the complete images. -/
def completeImages (images : List Bool) : List ℕ :=
  (List.range images.length).filter fun n => images[n]? = some true

theorem completeImages_concat (images : List Bool) (b : Bool) :
    completeImages (images ++ [b]) = completeImages images ++ if b then [images.length] else [] := by
  have hbefore : (List.range images.length).filter (fun n => (images ++ [b])[n]? = some true) =
      completeImages images := by
    apply List.filter_congr
    intro n hn
    rw [List.getElem?_append_left (List.mem_range.mp hn)]
  rw [completeImages, List.length_append, List.length_singleton, List.range_succ, List.filter_append, hbefore]
  cases b <;> simp

/-- The elements that are kept. -/
def select {α : Type*} (kept : List Bool) (xs : List α) : List α :=
  (kept.zip xs).filterMap fun (k, x) => if k then some x else none

section Select

variable {α : Type*} {kept : List Bool} {xs : List α} {x : α}

theorem select_append_of_le (ys : List α) (h : kept.length ≤ xs.length) :
    select kept (xs ++ ys) = select kept xs := by
  induction kept generalizing xs with
  | nil => rfl
  | cons k kept ih =>
    cases xs with
    | nil => simp at h
    | cons x xs =>
      have htail : select kept (xs ++ ys) = select kept xs := ih (by simpa using h)
      simp only [select, List.cons_append, List.zip_cons_cons, List.filterMap_cons] at htail ⊢
      cases k <;> simp [htail]

theorem select_concat (b : Bool) (h : kept.length = xs.length) :
    select (kept ++ [b]) (xs ++ [x]) = select kept xs ++ if b then [x] else [] := by
  rw [select, List.zip_append h, List.filterMap_append]
  cases b <;> rfl

theorem select_length (h : kept.length ≤ xs.length) : (select kept xs).length = kept.count true := by
  induction kept generalizing xs with
  | nil => rfl
  | cons k kept ih =>
    cases xs with
    | nil => simp at h
    | cons x xs =>
      have htail : (select kept xs).length = kept.count true := ih (by simpa using h)
      simp only [select, List.zip_cons_cons, List.filterMap_cons] at htail ⊢
      cases k <;> simp [htail]

theorem select_all (hall : ∀ b ∈ kept, b = true) (h : kept.length = xs.length) : select kept xs = xs := by
  induction kept generalizing xs with
  | nil => rw [select, List.zip_nil_left, List.filterMap_nil, List.length_eq_zero_iff.mp h.symm]
  | cons k kept ih =>
    cases xs with
    | nil => simp at h
    | cons x xs =>
      have hk : k = true := hall k List.mem_cons_self
      have htail : select kept xs = xs :=
        ih (fun b hb => hall b (List.mem_cons_of_mem _ hb)) (by simpa using h)
      simp only [select, List.zip_cons_cons, List.filterMap_cons, hk, if_true] at htail ⊢
      rw [htail]

end Select

/-! ### What the program counter says -/

/-- Three images of the first camera and one of each camera are taken before the first beat. -/
def beforeBeats (i : ℕ) : ℕ := if i = 0 then 4 else 1

/-- The complete images of a camera that have been taken before the first beat. -/
def RunPc.setUp (i : ℕ) : RunPc → ℕ
  | .begin => 0
  | .warmUp k => if i = 0 then k else 0
  | .first m | .failed m => (if i = 0 then 3 else 0) + if i < m then 1 else 0
  | _ => beforeBeats i

def RunPc.settingUp : RunPc → Bool
  | .begin | .warmUp _ | .first _ | .failed _ => true
  | _ => false

/-- The image of a camera for the beat that is not yet tested. -/
def RunPc.ahead (i : ℕ) : RunPc → ℕ
  | .grab m => if i < m then 1 else 0
  | .storeBeat => 1
  | _ => 0

/-- `frames[i]` has the last complete image. -/
def RunPc.holds (i : ℕ) : RunPc → Bool
  | .begin | .warmUp _ => false
  | .first m | .failed m => i < m
  | _ => true

/-- The beat is to be saved, and the frame of the camera is not. -/
def RunPc.unsaved (i : ℕ) : RunPc → Bool
  | .save m => m ≤ i
  | _ => false

/-- The beat that is saved is not in `j`. -/
def RunPc.uncounted : RunPc → ℕ
  | .save _ | .rearm | .count => 1
  | _ => 0

def Recorder.complete (s : Recorder) (i : ℕ) : List ℕ := completeImages (s.images i)

/-- The images of a camera in the beats. -/
def Recorder.beatImages (s : Recorder) (i : ℕ) : List ℕ := (s.complete i).drop (beforeBeats i)

/-- The frames of a camera in its files. -/
def Recorder.filesOf (s : Recorder) (i : ℕ) : List (Option ℕ × ℕ) :=
  s.files.filterMap fun f => if f.camera = i then some (f.image, f.number) else none

def Recorder.unsaved (s : Recorder) (i : ℕ) : List (Option ℕ × ℕ) :=
  if s.pc.unsaved i then [(s.frames i, s.j)] else []

/-- The images of the kept beats, numbered. -/
def Recorder.keptFrames (s : Recorder) (i : ℕ) : List (Option ℕ × ℕ) :=
  ((select s.kept (s.beatImages i)).map some).zipIdx

structure RecordInv (count : ℕ) (s : Recorder) : Prop where
  warm : ∀ k, s.pc = .warmUp k → k < 3
  taken : ∀ i < count, (s.complete i).length = s.pc.setUp i + s.kept.length + s.pc.ahead i
  start : s.pc.settingUp = true → s.kept = []
  held : ∀ i < count, s.pc.holds i = true → s.frames i = (s.complete i).getLast?
  counted : s.j + s.pc.uncounted = s.kept.count true
  files : ∀ i < count, s.filesOf i ++ s.unsaved i = s.keptFrames i

section Images

variable {s : Recorder} {i m : ℕ} {b : Bool}

theorem complete_getNextImage : (s.getNextImage m b).complete i =
    s.complete i ++ if i = m ∧ b = true then [(s.images m).length] else [] := by
  by_cases him : i = m
  · subst him
    simp only [Recorder.complete, Recorder.getNextImage, Function.update_self, completeImages_concat, true_and]
  · simp only [Recorder.complete, Recorder.getNextImage, Function.update_of_ne him, him, false_and, if_false,
      List.append_nil]

theorem complete_getNextImage_false : (s.getNextImage m false).complete i = s.complete i := by
  simp [complete_getNextImage]

theorem complete_convert : (s.convert m).complete i =
    s.complete i ++ if i = m then [(s.images m).length] else [] := by
  have h : (s.convert m).complete i = _ := complete_getNextImage (b := true)
  simpa only [and_true] using h

theorem frames_convert_self : (s.convert i).frames i = ((s.convert i).complete i).getLast? := by
  rw [complete_convert, if_pos rfl, List.getLast?_concat]
  exact Function.update_self ..

theorem frames_convert_of_ne (h : i ≠ m) : (s.convert m).frames i = s.frames i := Function.update_of_ne h ..

end Images

/-! ### The invariant -/

section Invariant

variable {count : ℕ} {stream b : Bool} {s s' : Recorder}

/-- A step that takes no complete image, keeps no beat and saves nothing. -/
theorem RecordInv.move (h : RecordInv count s) (hwarm : ∀ k, s'.pc = .warmUp k → k < 3)
    (hcomplete : ∀ i, s'.complete i = s.complete i) (hkept : s'.kept = s.kept) (hfiles : s'.files = s.files)
    (htaken : ∀ i < count, s'.pc.setUp i + s'.pc.ahead i = s.pc.setUp i + s.pc.ahead i)
    (hstart : s'.pc.settingUp = true → s.pc.settingUp = true)
    (hheld : ∀ i < count, s'.pc.holds i = true → s.pc.holds i = true ∧ s'.frames i = s.frames i)
    (hcounted : s'.j + s'.pc.uncounted = s.j + s.pc.uncounted)
    (hunsaved : ∀ i < count, s'.unsaved i = s.unsaved i) : RecordInv count s' where
  warm := hwarm
  taken i hi := by
    have hlength := h.taken i hi
    have hsum := htaken i hi
    rw [hcomplete, hkept]
    omega
  start hset := hkept.trans (h.start (hstart hset))
  held i hi hholds := by
    obtain ⟨hbefore, hframes⟩ := hheld i hi hholds
    rw [hframes, hcomplete]
    exact h.held i hi hbefore
  counted := by
    rw [hcounted, hkept]
    exact h.counted
  files i hi := by
    have hbefore := h.files i hi
    rw [Recorder.filesOf, Recorder.keptFrames, Recorder.beatImages] at *
    rw [hfiles, hkept, hcomplete, hunsaved i hi]
    exact hbefore

/-- A complete image, before the beats or for the beat that is not yet tested. -/
theorem RecordInv.image {m : ℕ} (h : RecordInv count s) (hwarm : ∀ k, s'.pc = .warmUp k → k < 3)
    (hcomplete : ∀ i, s'.complete i = s.complete i ++ if i = m then [(s.images m).length] else [])
    (hkept : s'.kept = s.kept) (hfiles : s'.files = s.files) (hj : s'.j = s.j)
    (htaken : ∀ i < count, s'.pc.setUp i + s'.pc.ahead i =
      s.pc.setUp i + s.pc.ahead i + if i = m then 1 else 0)
    (hstart : s'.pc.settingUp = s.pc.settingUp)
    (hbeats : ∀ i < count, s.pc.settingUp = false → beforeBeats i + s.kept.length ≤ (s.complete i).length)
    (hheld : ∀ i < count, s'.pc.holds i = true → s'.frames i = (s'.complete i).getLast?)
    (huncounted : s'.pc.uncounted = s.pc.uncounted)
    (hunsaved : ∀ i < count, s'.pc.unsaved i = false ∧ s.pc.unsaved i = false) : RecordInv count s' where
  warm := hwarm
  taken i hi := by
    have hlength := h.taken i hi
    have hsum := htaken i hi
    rw [hcomplete, hkept, List.length_append]
    split at hsum
    · rw [if_pos ‹_›, List.length_singleton]
      omega
    · rw [if_neg ‹_›, List.length_nil]
      omega
  start hset := hkept.trans (h.start (hstart ▸ hset))
  held := hheld
  counted := by
    rw [hj, huncounted, hkept]
    exact h.counted
  files i hi := by
    have hbefore := h.files i hi
    obtain ⟨hafter, hnone⟩ := hunsaved i hi
    rw [Recorder.unsaved, hnone, if_neg Bool.false_ne_true, List.append_nil] at hbefore
    rw [Recorder.unsaved, hafter, if_neg Bool.false_ne_true, List.append_nil]
    have hsame : s'.filesOf i = s.filesOf i := by rw [Recorder.filesOf, Recorder.filesOf, hfiles]
    rw [hsame, hbefore, Recorder.keptFrames, Recorder.keptFrames, hkept]
    cases hset : s.pc.settingUp with
    | true => rw [h.start hset, select, select, List.zip_nil_left, List.zip_nil_left]
    | false =>
      have hlong := hbeats i hi hset
      rw [Recorder.beatImages, Recorder.beatImages, hcomplete, List.drop_append_of_le_length (by omega),
        select_append_of_le _ (by rw [List.length_drop]; omega)]

theorem beatImages_getLast? {i : ℕ} (h : beforeBeats i < (s.complete i).length) :
    (s.beatImages i).getLast? = (s.complete i).getLast? := by
  rw [Recorder.beatImages, List.getLast?_drop, if_neg (by omega)]

/-- The frames that a decision about the beat adds to the kept ones. -/
theorem RecordInv.keptFrames_concat {i : ℕ} (h : RecordInv count s) (hpc : s.pc = .storeBeat)
    (hi : i < count) (b : Bool) : ((select (s.kept ++ [b]) (s.beatImages i)).map some).zipIdx =
      s.keptFrames i ++ if b then [(s.frames i, s.j)] else [] := by
  have hlength := h.taken i hi
  have hheld := h.held i hi
  have hcounted := h.counted
  simp only [hpc, RunPc.setUp, RunPc.ahead, RunPc.holds, RunPc.uncounted, forall_const]
    at hlength hheld hcounted
  have hbeats : (s.beatImages i).length = s.kept.length + 1 := by
    rw [Recorder.beatImages, List.length_drop]
    omega
  obtain ⟨x, hx⟩ : ∃ x, (s.beatImages i).getLast? = some x := by
    cases hlast : (s.beatImages i).getLast? with
    | none => simp [List.getLast?_eq_none_iff.mp hlast] at hbeats
    | some x => exact ⟨x, rfl⟩
  have hframe : s.frames i = some x := by rw [hheld, ← beatImages_getLast? (by omega), hx]
  obtain ⟨xs, hxs⟩ := List.getLast?_eq_some_iff.mp hx
  have hsame : s.kept.length = xs.length := by
    rw [hxs, List.length_append, List.length_singleton] at hbeats
    omega
  have hnumber : ((select s.kept xs).map some).length = s.j := by
    rw [List.length_map, select_length hsame.le]
    omega
  rw [Recorder.keptFrames, hxs, select_concat b hsame, select_append_of_le _ hsame.le, List.map_append,
    List.zipIdx_append, hnumber, hframe]
  cases b <;> simp

/-- `if(mStoreThisBeat)`: the images of the beat are kept or left. -/
theorem RecordInv.storeBeat (h : RecordInv count s) (hpc : s.pc = .storeBeat) :
    RecordInv count { s with
      kept := s.kept ++ [s.mStoreThisBeat], pc := if s.mStoreThisBeat then .save 0 else .recheck } := by
  have htaken := h.taken
  have hheld := h.held
  have hcounted := h.counted
  have hfiles := h.files
  have hconcat := fun i hi => h.keptFrames_concat hpc (i := i) hi s.mStoreThisBeat
  simp only [hpc, RunPc.setUp, RunPc.ahead, RunPc.holds, RunPc.uncounted, RunPc.unsaved, Recorder.unsaved,
    forall_const, Bool.false_eq_true, if_false, List.append_nil] at htaken hheld hcounted hfiles
  cases hflag : s.mStoreThisBeat with
  | false =>
    rw [hflag] at hconcat
    refine ⟨fun _ hk => RunPc.noConfusion hk, fun i hi => ?_, fun hset => absurd hset Bool.false_ne_true,
      fun i hi _ => hheld i hi, ?_, fun i hi => ?_⟩
    · have hlength := htaken i hi
      simp only [List.length_append, List.length_singleton, RunPc.setUp, RunPc.ahead]
      exact hlength
    · simpa [RunPc.uncounted] using hcounted
    · have hsame := hconcat i hi
      rw [if_neg Bool.false_ne_true, List.append_nil] at hsame
      exact (List.append_nil _).trans ((hfiles i hi).trans hsame.symm)
  | true =>
    rw [hflag] at hconcat
    refine ⟨fun _ hk => RunPc.noConfusion hk, fun i hi => ?_, fun hset => absurd hset Bool.false_ne_true,
      fun i hi _ => hheld i hi, ?_, fun i hi => ?_⟩
    · have hlength := htaken i hi
      simp only [List.length_append, List.length_singleton, RunPc.setUp, RunPc.ahead]
      exact hlength
    · simpa [RunPc.uncounted] using hcounted
    · refine Eq.trans ?_ (hconcat i hi).symm
      rw [← hfiles i hi]
      rfl

/-- `Save` of one frame of the beat. -/
theorem RecordInv.save {m : ℕ} (h : RecordInv count s) (hpc : s.pc = .save m) :
    RecordInv count { s with files := s.files ++ [⟨m, s.j, s.frames m⟩], pc := .save (m + 1) } := by
  have htaken := h.taken
  have hheld := h.held
  have hcounted := h.counted
  simp only [hpc, RunPc.setUp, RunPc.ahead, RunPc.holds, RunPc.uncounted, forall_const] at htaken hheld hcounted
  refine ⟨fun _ hk => RunPc.noConfusion hk, htaken, fun hset => absurd hset Bool.false_ne_true,
    fun i hi _ => hheld i hi, hcounted, fun i hi => ?_⟩
  have hbefore := h.files i hi
  simp only [Recorder.keptFrames, Recorder.unsaved, hpc, RunPc.unsaved, decide_eq_true_eq] at hbefore ⊢
  refine Eq.trans ?_ hbefore
  rw [Recorder.filesOf, Recorder.filesOf, List.filterMap_append]
  by_cases him : i = m
  · subst him
    simp
  · by_cases hlt : m ≤ i
    · have hsucc : m + 1 ≤ i := by omega
      simp [hlt, hsucc, Ne.symm him]
    · have hsucc : ¬ m + 1 ≤ i := by omega
      simp [hlt, hsucc, Ne.symm him]

theorem RecordInv.warmUp {k : ℕ} {complete : Bool} (h : RecordInv count s) (hpc : s.pc = .warmUp k) :
    RecordInv count { s.getNextImage 0 complete with
      pc := if complete then (if k + 1 < 3 then .warmUp (k + 1) else .first 0) else .warmUp k } := by
  have hk := h.warm k hpc
  cases complete with
  | false =>
    refine h.move (fun n hn => ?_) (fun i => complete_getNextImage_false) rfl rfl ?_ ?_ ?_ ?_ ?_
    · simp only [Bool.false_eq_true, if_false, RunPc.warmUp.injEq] at hn
      omega
    all_goals simp [hpc, RunPc.setUp, RunPc.ahead, RunPc.holds, RunPc.settingUp, RunPc.uncounted, RunPc.unsaved,
      Recorder.unsaved, Recorder.getNextImage]
  | true =>
    by_cases hmore : k + 1 < 3
    · simp only [if_true, if_pos hmore]
      refine h.image (m := 0) (fun n hn => ?_) (fun i => ?_) rfl rfl rfl ?_ ?_ ?_ ?_ ?_ ?_
      · cases hn
        exact hmore
      · exact complete_getNextImage.trans (by simp only [and_true])
      · intro i _
        simp only [hpc, RunPc.setUp, RunPc.ahead]
        split <;> omega
      all_goals simp [hpc, RunPc.settingUp, RunPc.holds, RunPc.uncounted, RunPc.unsaved]
    · simp only [if_true, if_neg hmore]
      refine h.image (m := 0) (fun n hn => RunPc.noConfusion hn) (fun i => ?_) rfl rfl rfl ?_ ?_ ?_ ?_ ?_ ?_
      · exact complete_getNextImage.trans (by simp only [and_true])
      · intro i _
        simp only [hpc, RunPc.setUp, RunPc.ahead, Nat.not_lt_zero, if_false]
        split <;> omega
      all_goals simp [hpc, RunPc.settingUp, RunPc.holds, RunPc.uncounted, RunPc.unsaved]

theorem held_convert {i m : ℕ} (hbefore : i ≠ m → s.frames i = (s.complete i).getLast?) :
    (s.convert m).frames i = ((s.convert m).complete i).getLast? := by
  by_cases him : i = m
  · subst him
    exact frames_convert_self
  · rw [frames_convert_of_ne him, complete_convert, if_neg him, List.append_nil]
    exact hbefore him

theorem indicator_succ (i m : ℕ) :
    (if i < m + 1 then 1 else 0) = (if i < m then 1 else 0) + if i = m then 1 else 0 := by
  split_ifs <;> omega

/-- The first complete image of a camera goes into `frames`. -/
theorem RecordInv.first {m : ℕ} (h : RecordInv count s) (hpc : s.pc = .first m) :
    RecordInv count { s.convert m with pc := .first (m + 1) } := by
  have hheld := h.held
  simp only [hpc, RunPc.holds, decide_eq_true_eq] at hheld
  refine h.image (m := m) (fun n hn => RunPc.noConfusion hn) (fun i => complete_convert) rfl rfl rfl ?_ ?_ ?_
    (fun i hi hholds => ?_) ?_ ?_
  · intro i _
    simp only [hpc, RunPc.setUp, RunPc.ahead, indicator_succ]
    omega
  · rw [hpc]
    rfl
  · rw [hpc]
    exact fun i hi hset => absurd hset.symm Bool.false_ne_true
  · simp only [RunPc.holds, decide_eq_true_eq] at hholds
    exact held_convert fun him => hheld i hi (by omega)
  · rw [hpc]
    rfl
  · rw [hpc]
    exact fun i hi => ⟨rfl, rfl⟩

/-- A complete image of the beat. -/
theorem RecordInv.grab {m : ℕ} (h : RecordInv count s) (hpc : s.pc = .grab m) :
    RecordInv count { s.convert m with pc := .grab (m + 1) } := by
  have hheld := h.held
  have htaken := h.taken
  simp only [hpc, RunPc.holds, RunPc.setUp, RunPc.ahead, forall_const] at hheld htaken
  refine h.image (m := m) (fun n hn => RunPc.noConfusion hn) (fun i => complete_convert) rfl rfl rfl ?_ ?_ ?_
    (fun i hi _ => held_convert fun _ => hheld i hi) ?_ ?_
  · intro i _
    simp only [hpc, RunPc.setUp, RunPc.ahead, indicator_succ]
    omega
  · rw [hpc]
    rfl
  · intro i hi _
    have hlength := htaken i hi
    omega
  · rw [hpc]
    rfl
  · rw [hpc]
    exact fun i hi => ⟨rfl, rfl⟩

theorem RecordInv.run {complete : Bool} (h : RecordInv count s) (hs : s.run count stream complete = some s') :
    RecordInv count s' := by
  cases hpc : s.pc with
  | begin =>
    simp only [Recorder.run, hpc] at hs
    by_cases hcount : count = 0
    · subst hcount
      simp only [if_true, Option.some.injEq] at hs
      subst hs
      refine h.move (fun k hk => RunPc.noConfusion hk) (fun i => rfl) rfl rfl ?_ ?_ ?_ ?_ ?_
      all_goals simp [hpc, RunPc.settingUp, RunPc.uncounted]
    · simp only [hcount, if_false, Option.some.injEq] at hs
      subst hs
      refine h.move (fun k hk => ?_) (fun i => rfl) rfl rfl ?_ ?_ ?_ ?_ ?_
      · cases hk
        omega
      all_goals simp [hpc, RunPc.setUp, RunPc.ahead, RunPc.settingUp, RunPc.holds, RunPc.uncounted,
        Recorder.unsaved, RunPc.unsaved]
  | warmUp k =>
    simp only [Recorder.run, hpc, Option.some.injEq] at hs
    exact hs ▸ h.warmUp hpc
  | first m =>
    simp only [Recorder.run, hpc] at hs
    by_cases hm : m < count
    · cases complete with
      | true =>
        simp only [hm, if_true, Option.some.injEq] at hs
        exact hs ▸ h.first hpc
      | false =>
        simp only [hm, Bool.false_eq_true, if_true, if_false, Option.some.injEq] at hs
        subst hs
        refine h.move (fun k hk => RunPc.noConfusion hk) (fun i => complete_getNextImage_false) rfl rfl
          ?_ ?_ ?_ ?_ ?_
        all_goals simp [hpc, RunPc.setUp, RunPc.ahead, RunPc.settingUp, RunPc.holds, RunPc.uncounted,
          Recorder.unsaved, RunPc.unsaved, Recorder.getNextImage]
    · simp only [hm, if_false, Option.some.injEq] at hs
      subst hs
      refine h.move (fun k hk => RunPc.noConfusion hk) (fun i => rfl) rfl rfl (fun i hi => ?_) ?_
        (fun i hi _ => ⟨?_, rfl⟩) ?_ ?_
      · have hlt : i < m := by omega
        simp only [hpc, RunPc.setUp, RunPc.ahead, beforeBeats, if_pos hlt]
        split <;> rfl
      · simp [RunPc.settingUp]
      · have hlt : i < m := by omega
        simp [hpc, RunPc.holds, hlt]
      all_goals simp [hpc, RunPc.uncounted, Recorder.unsaved, RunPc.unsaved]
  | failed m => simp [Recorder.run, hpc] at hs
  | test =>
    simp only [Recorder.run, hpc, Option.some.injEq] at hs
    subst hs
    cases s.doCapture
    all_goals
      refine h.move (fun k hk => RunPc.noConfusion hk) (fun i => rfl) rfl rfl ?_ ?_ ?_ ?_ ?_
      all_goals simp [hpc, RunPc.setUp, RunPc.ahead, RunPc.settingUp, RunPc.holds, RunPc.uncounted,
        Recorder.unsaved, RunPc.unsaved]
  | grab m =>
    simp only [Recorder.run, hpc] at hs
    by_cases hm : m < count
    · cases complete with
      | true =>
        simp only [hm, if_true, Option.some.injEq] at hs
        exact hs ▸ h.grab hpc
      | false =>
        simp only [hm, Bool.false_eq_true, if_true, if_false, Option.some.injEq] at hs
        subst hs
        refine h.move (fun k hk => ?_) (fun i => complete_getNextImage_false) rfl rfl ?_ ?_ ?_ ?_ ?_
        · rw [Recorder.getNextImage, hpc] at hk
          cases hk
        all_goals simp [hpc, RunPc.holds, Recorder.unsaved, Recorder.getNextImage, RunPc.unsaved]
    · simp only [hm, if_false, Option.some.injEq] at hs
      subst hs
      refine h.move (fun k hk => RunPc.noConfusion hk) (fun i => rfl) rfl rfl (fun i hi => ?_) ?_ ?_ ?_ ?_
      · have hlt : i < m := by omega
        simp only [hpc, RunPc.setUp, RunPc.ahead, if_pos hlt]
      all_goals simp [hpc, RunPc.settingUp, RunPc.holds, RunPc.uncounted, Recorder.unsaved, RunPc.unsaved]
  | storeBeat =>
    simp only [Recorder.run, hpc, Option.some.injEq] at hs
    exact hs ▸ h.storeBeat hpc
  | save m =>
    simp only [Recorder.run, hpc] at hs
    by_cases hm : m < count
    · simp only [hm, if_true, Option.some.injEq] at hs
      exact hs ▸ h.save hpc
    · simp only [hm, if_false, Option.some.injEq] at hs
      subst hs
      refine h.move (fun k hk => RunPc.noConfusion hk) (fun i => rfl) rfl rfl ?_ ?_ ?_ ?_ (fun i hi => ?_)
      on_goal 5 =>
        have hlt : ¬ m ≤ i := by omega
        simp [hpc, Recorder.unsaved, RunPc.unsaved, hlt]
      all_goals simp [hpc, RunPc.setUp, RunPc.ahead, RunPc.settingUp, RunPc.holds, RunPc.uncounted]
  | rearm | count =>
    simp only [Recorder.run, hpc, Option.some.injEq] at hs
    subst hs
    refine h.move (fun k hk => RunPc.noConfusion hk) (fun i => rfl) rfl rfl ?_ ?_ ?_ ?_ ?_
    all_goals simp [hpc, RunPc.setUp, RunPc.ahead, RunPc.settingUp, RunPc.holds, RunPc.uncounted,
      Recorder.unsaved, RunPc.unsaved]
  | recheck =>
    simp only [Recorder.run, hpc, Option.some.injEq] at hs
    subst hs
    cases s.doCapture
    all_goals
      refine h.move (fun k hk => RunPc.noConfusion hk) (fun i => rfl) rfl rfl ?_ ?_ ?_ ?_ ?_
      all_goals simp [hpc, RunPc.setUp, RunPc.ahead, RunPc.settingUp, RunPc.holds, RunPc.uncounted,
        Recorder.unsaved, RunPc.unsaved]
  | returned => simp [Recorder.run, hpc] at hs

theorem RecordInv.step {a : RecorderLabel} (h : RecordInv count s) (hs : s.step count stream a = some s') :
    RecordInv count s' := by
  cases a with
  | run complete => exact h.run hs
  | storeOnce | stop =>
    simp only [Recorder.step, Option.some.injEq] at hs
    subst hs
    exact h.move h.warm (fun i => rfl) rfl rfl (fun i _ => rfl) id (fun i _ hi => ⟨hi, rfl⟩) rfl
      (fun i _ => rfl)

theorem recordInv (h : (recording count stream).Reach Lts.anyStep s) : RecordInv count s := by
  apply h.invariant (RecordInv count)
  · rintro s ⟨b, rfl⟩
    refine ⟨fun k hk => RunPc.noConfusion hk, fun i hi => rfl, fun _ => rfl, fun i hi hset => ?_, rfl,
      fun i hi => rfl⟩
    exact absurd hset Bool.false_ne_true
  · intro s a s' _ hi _ hs
    exact hi.step hs

/-- Behind `begin` the flag is set for good when the stream is stored. -/
structure StreamInv (s : Recorder) : Prop where
  flag : s.pc ≠ .begin → s.pc ≠ .returned → s.mStoreThisBeat = true
  kept : ∀ k ∈ s.kept, k = true

theorem StreamInv.step {a : RecorderLabel} (h : StreamInv s) (hs : s.step count true a = some s') :
    StreamInv s' := by
  obtain ⟨hflag, hkept⟩ := h
  cases a with
  | storeOnce =>
    simp only [Recorder.step, Option.some.injEq] at hs
    exact hs ▸ ⟨fun _ _ => rfl, hkept⟩
  | stop =>
    simp only [Recorder.step, Option.some.injEq] at hs
    exact hs ▸ ⟨hflag, hkept⟩
  | run complete =>
    simp only [Recorder.step, Recorder.run] at hs
    cases hpc : s.pc with
    | begin =>
      simp only [hpc] at hs
      split at hs
      all_goals
        cases hs
        exact ⟨by simp, hkept⟩
    | failed m | returned => simp [hpc] at hs
    | storeBeat =>
      simp only [hpc, Option.some.injEq] at hs
      subst hs
      have hset : s.mStoreThisBeat = true := hflag (by simp [hpc]) (by simp [hpc])
      refine ⟨fun _ _ => hset, fun k hk => ?_⟩
      rcases List.mem_append.mp hk with hold | hnew
      · exact hkept k hold
      · rw [List.mem_singleton.mp hnew, hset]
    | rearm =>
      simp only [hpc, Option.some.injEq] at hs
      exact hs ▸ ⟨fun _ _ => rfl, hkept⟩
    | first m | grab m =>
      have hset : s.mStoreThisBeat = true := hflag (by simp [hpc]) (by simp [hpc])
      simp only [hpc] at hs
      split at hs
      · split at hs
        all_goals
          cases hs
          exact ⟨fun _ _ => hset, hkept⟩
      · cases hs
        exact ⟨fun _ _ => hset, hkept⟩
    | save m =>
      have hset : s.mStoreThisBeat = true := hflag (by simp [hpc]) (by simp [hpc])
      simp only [hpc] at hs
      split at hs
      all_goals
        cases hs
        exact ⟨fun _ _ => hset, hkept⟩
    | warmUp k | test | count | recheck =>
      have hset : s.mStoreThisBeat = true := hflag (by simp [hpc]) (by simp [hpc])
      simp only [hpc, Option.some.injEq] at hs
      exact hs ▸ ⟨fun _ _ => hset, hkept⟩

theorem streamInv (h : (recording count true).Reach Lts.anyStep s) : StreamInv s := by
  apply h.invariant StreamInv
  · rintro s ⟨b, rfl⟩
    exact ⟨fun hbegin => absurd rfl hbegin, fun k hk => absurd hk List.not_mem_nil⟩
  · intro s a s' _ hi _ hs
    exact hi.step hs

end Invariant

/-! ### What is in the files -/

/-- The files of a camera are the kept ones of its images, numbered from 0, but for the frame that is not yet
saved. Of its images those are left out that are not complete or were taken in front of the first beat. -/
structure BeatsSaved (count : ℕ) (stream : Bool) (s : Recorder) : Prop where
  files : ∀ i < count, s.filesOf i ++ s.unsaved i = s.keptFrames i
  counted : s.j + s.pc.uncounted = s.kept.count true
  pace : ∀ i < count, s.kept.length ≤ (s.beatImages i).length ∧ (s.beatImages i).length ≤ s.kept.length + 1
  ended : s.pc = .returned → ∀ i < count, (s.beatImages i).length = s.kept.length
  streamed : stream = true → s.pc = .returned → ∀ i < count,
    s.filesOf i = ((s.beatImages i).map some).zipIdx

section Saved

variable {count : ℕ} {stream : Bool} {s : Recorder}

theorem RecordInv.pace {i : ℕ} (h : RecordInv count s) (hi : i < count) :
    (s.beatImages i).length = s.kept.length + s.pc.ahead i := by
  have hlength := h.taken i hi
  have hstart := h.start
  rw [Recorder.beatImages, List.length_drop]
  cases hpc : s.pc with
  | warmUp k =>
    have hk := h.warm k hpc
    simp only [hpc, RunPc.setUp, RunPc.ahead, RunPc.settingUp, forall_const] at hlength hstart ⊢
    rw [hstart, List.length_nil] at hlength ⊢
    rw [beforeBeats]
    by_cases hzero : i = 0
    · rw [if_pos hzero] at hlength ⊢
      omega
    · rw [if_neg hzero] at hlength ⊢
      omega
  | first m | failed m =>
    simp only [hpc, RunPc.setUp, RunPc.ahead, RunPc.settingUp, forall_const] at hlength hstart ⊢
    rw [hstart, List.length_nil] at hlength ⊢
    have hone : (if i < m then 1 else 0) ≤ 1 := by split <;> omega
    rw [beforeBeats]
    by_cases hzero : i = 0
    · rw [if_pos hzero] at hlength ⊢
      omega
    · rw [if_neg hzero] at hlength ⊢
      omega
  | begin =>
    simp only [hpc, RunPc.setUp, RunPc.ahead, RunPc.settingUp, forall_const] at hlength hstart ⊢
    rw [hstart, List.length_nil] at hlength ⊢
    omega
  | _ =>
    simp only [hpc, RunPc.setUp] at hlength
    omega

/-- In every run: nothing that is kept is lost, doubled or out of order. -/
theorem beats_saved (h : (recording count stream).Reach Lts.anyStep s) : BeatsSaved count stream s := by
  have hinv := recordInv h
  have hahead : ∀ i, s.pc.ahead i ≤ 1 := by
    intro i
    cases s.pc with
    | grab m =>
      rw [RunPc.ahead]
      split <;> omega
    | _ => simp [RunPc.ahead]
  have hended : s.pc = .returned → ∀ i < count, (s.beatImages i).length = s.kept.length := by
    intro hpc i hi
    rw [hinv.pace hi, hpc]
    rfl
  refine ⟨hinv.files, hinv.counted, fun i hi => ?_, hended, fun hstream hpc i hi => ?_⟩
  · have hpace := hinv.pace hi
    have hle := hahead i
    omega
  · subst hstream
    have hfiles := hinv.files i hi
    have hall := select_all (streamInv h).kept (hended hpc i hi).symm
    have hnone : s.pc.unsaved i = false := by rw [hpc]; rfl
    rwa [Recorder.unsaved, hnone, if_neg Bool.false_ne_true, List.append_nil, Recorder.keptFrames,
      hall] at hfiles

/-- One camera: an image that is not complete, a beat that is asked for, one that is not, and the end. -/
def oneRequest : List RecorderLabel :=
  [.run true, .run true, .run false, .run true, .run true, .run true, .run true, .run true, .run true,
    .storeOnce, .run true, .run true, .run true, .run true, .run true, .run true, .run true, .run true,
    .run false, .run true, .run true, .run true, .run true, .stop, .run true]

theorem beats_saved_oneRequest : ∃ s, (recording 1 false).Reach Lts.anyStep s ∧ s.kept = [true, false] ∧
    s.filesOf 0 = [(some 5, 0)] ∧ s.beatImages 0 = [5, 7] ∧ BeatsSaved 1 false s := by
  have hreach := Lts.reach_exec (recording 1 false) Lts.anyStep oneRequest (s := .initial true)
    ⟨true, rfl⟩ rfl fun _ _ _ => trivial
  exact ⟨_, hreach, rfl, rfl, rfl, beats_saved hreach⟩

end Saved

end TmkDcl.Spinnaker
