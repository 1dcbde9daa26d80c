import Mathlib.Data.List.Nodup
import Mathlib.Data.List.Perm.Subperm
import TmkDcl.Paths
import TmkDcl.Spinnaker.Recording

/-!
# The files of the frames (tools/spinnaker/src/main_acquisition.cpp, captureManager.cpp)

`main` makes a directory for the run and one for each camera in it. A name that exists is tried again with
`_0`, `_1` and so on behind it.
-/

namespace TmkDcl.Spinnaker

abbrev Path := List Char

/-- The names that are tried: `storage`, and then `backup + "_" + std::to_string(tryNo)`. -/
def candidate (backup : Path) : ℕ → Path
  | 0 => backup
  | tryNo + 1 => backup ++ '_' :: Nat.toDigits 10 tryNo

/-- `while (std::filesystem::exists(storage))` (`main_acquisition.cpp:145-147`, `155-157`). -/
def tryNames (existing : List Path) (backup : Path) : ℕ → ℕ → Option Path
  | 0, _ => none
  | fuel + 1, n =>
    if candidate backup n ∈ existing then tryNames existing backup fuel (n + 1) else some (candidate backup n)

/-- `std::setw(10) << std::setfill('0') << j << ".raw"`. -/
def rawName (j : ℕ) : Path :=
  List.replicate (10 - (Nat.toDigits 10 j).length) '0' ++ Nat.toDigits 10 j ++ ".raw".toList

section Names

variable {existing : List Path} {backup p : Path} {fuel n k : ℕ}

theorem candidate_injective (backup : Path) : Function.Injective (candidate backup) := by
  intro n k h
  cases n with
  | zero =>
    cases k with
    | zero => rfl
    | succ k => simp [candidate] at h
  | succ n =>
    cases k with
    | zero => simp [candidate] at h
    | succ k =>
      simp only [candidate, List.append_cancel_left_eq, List.cons.injEq, true_and] at h
      have hn := congrArg (Nat.ofDigitChars 10 · 0) h
      rw [Nat.ofDigitChars_ten_toDigits, Nat.ofDigitChars_ten_toDigits] at hn
      rw [hn]

theorem tryNames_none (h : tryNames existing backup fuel n = none) (hn : n ≤ k) (hk : k < n + fuel) :
    candidate backup k ∈ existing := by
  induction fuel generalizing n with
  | zero => omega
  | succ fuel ih =>
    rw [tryNames] at h
    split at h
    · rcases Nat.eq_or_lt_of_le hn with heq | hlt
      · exact heq ▸ ‹_›
      · exact ih h hlt (by omega)
    · cases h

theorem tryNames_not_mem (h : tryNames existing backup fuel n = some p) : p ∉ existing := by
  induction fuel generalizing n with
  | zero => cases h
  | succ fuel ih =>
    rw [tryNames] at h
    split at h
    · exact ih h
    · cases h
      assumption

/-- The loop ends: one of the first names is not taken. -/
theorem tryNames_isSome (existing : List Path) (backup : Path) :
    (tryNames existing backup (existing.length + 1) 0).isSome = true := by
  by_contra hnone
  have hfuel := Option.not_isSome_iff_eq_none.mp hnone
  have hnodup : ((List.range (existing.length + 1)).map (candidate backup)).Nodup :=
    List.nodup_range.map (candidate_injective backup)
  have hsubset : (List.range (existing.length + 1)).map (candidate backup) ⊆ existing := by
    intro p hp
    obtain ⟨k, hk, rfl⟩ := List.mem_map.mp hp
    exact tryNames_none hfuel k.zero_le (by simpa using List.mem_range.mp hk)
  have hle := (hnodup.subperm hsubset).length_le
  rw [List.length_map, List.length_range] at hle
  omega

/-- Leading zeros say nothing. -/
theorem ofDigitChars_zeros (m : ℕ) (digits : List Char) :
    Nat.ofDigitChars 10 (List.replicate m '0' ++ digits) 0 = Nat.ofDigitChars 10 digits 0 := by
  rw [Nat.ofDigitChars_append, Nat.ofDigitChars_replicate_zero, Nat.mul_zero]

theorem rawName_injective : Function.Injective rawName := by
  intro j k h
  have hdigits := congrArg (Nat.ofDigitChars 10 · 0) (List.append_cancel_right h)
  simpa only [ofDigitChars_zeros, Nat.ofDigitChars_ten_toDigits] using hdigits

theorem slash_not_mem_rawName (j : ℕ) : '/' ∉ rawName j := by
  intro h
  rw [rawName, List.mem_append, List.mem_append] at h
  obtain (hzero | hdigit) | hend := h
  · exact absurd (List.eq_of_mem_replicate hzero) (by decide)
  · have := Nat.isDigit_of_mem_toDigits (by decide) (by decide) hdigit
    exact absurd this (by decide)
  · exact absurd hend (by decide)

end Names

/-! ### The directories -/

/-- The directory that is created. -/
def untaken (existing : List Path) (backup : Path) : Path :=
  (tryNames existing backup (existing.length + 1) 0).get (tryNames_isSome existing backup)

/-- The directories of the cameras, by their serials (`main_acquisition.cpp:150-159`). -/
def cameraStorages (existing : List Path) (storage : Path) : List ℕ → List Path
  | [] => []
  | serial :: serials =>
    let storPath := untaken existing (storage ++ '/' :: Nat.toDigits 10 serial)
    storPath :: cameraStorages (storPath :: existing) storage serials

/-- `mStorages` of the manager; `existing` is what there is before the run. -/
def mStorages (existing : List Path) (backup : Path) (serials : List ℕ) : List Path :=
  let storage := untaken existing backup
  cameraStorages (storage :: existing) storage serials

/-- The directories that `main` makes: that of the run and those of the cameras. -/
def madeStorages (existing : List Path) (backup : Path) (serials : List ℕ) : List Path :=
  untaken existing backup :: mStorages existing backup serials

/-- The path in `Save` (`captureManager.cpp:286-289`). -/
def framePath (storages : List Path) (f : SavedFrame) : Path :=
  (storages[f.camera]?).getD [] ++ '/' :: rawName f.number

section Directories

variable {existing : List Path} {backup storage p : Path} {serials : List ℕ}

theorem untaken_not_mem : untaken existing backup ∉ existing :=
  tryNames_not_mem (Option.some_get _).symm

theorem cameraStorages_length : (cameraStorages existing storage serials).length = serials.length := by
  induction serials generalizing existing with
  | nil => rfl
  | cons serial serials ih => simp [cameraStorages, ih]

/-- Each directory is new when it is created. -/
theorem cameraStorages_fresh : (cameraStorages existing storage serials).Nodup ∧
    ∀ p ∈ cameraStorages existing storage serials, p ∉ existing := by
  induction serials generalizing existing with
  | nil => exact ⟨List.nodup_nil, fun p hp => absurd hp List.not_mem_nil⟩
  | cons serial serials ih =>
    let made := untaken existing (storage ++ '/' :: Nat.toDigits 10 serial)
    obtain ⟨hnodup, hfresh⟩ := @ih (made :: existing)
    rw [cameraStorages]
    constructor
    · exact List.nodup_cons.mpr ⟨fun hmem => hfresh _ hmem List.mem_cons_self, hnodup⟩
    · intro p hp
      rcases List.mem_cons.mp hp with rfl | hp
      · exact untaken_not_mem
      · exact fun hold => hfresh p hp (List.mem_cons_of_mem _ hold)

theorem mStorages_length : (mStorages existing backup serials).length = serials.length :=
  cameraStorages_length

/-- `main` makes one directory more than there are cameras, and each is new. -/
theorem madeStorages_fresh : (madeStorages existing backup serials).length = serials.length + 1 ∧
    (madeStorages existing backup serials).Nodup ∧
      ∀ p ∈ madeStorages existing backup serials, p ∉ existing := by
  have hfresh := @cameraStorages_fresh (untaken existing backup :: existing) (untaken existing backup) serials
  refine ⟨congrArg (· + 1) mStorages_length, ?_, fun p hp => ?_⟩
  · exact List.nodup_cons.mpr ⟨fun hmem => hfresh.2 _ hmem List.mem_cons_self, hfresh.1⟩
  · rcases List.mem_cons.mp hp with rfl | hp
    · exact untaken_not_mem
    · exact fun hold => hfresh.2 p hp (List.mem_cons_of_mem _ hold)

theorem mStorages_nodup : (mStorages existing backup serials).Nodup :=
  (List.nodup_cons.mp madeStorages_fresh.2.1).2

theorem mStorages_not_mem (h : p ∈ mStorages existing backup serials) : p ∉ existing :=
  madeStorages_fresh.2.2 p (List.mem_cons_of_mem _ h)

end Directories

/-! ### The files -/

section Files

variable {count : ℕ} {stream : Bool} {s : Recorder}

theorem camera_lt (h : (recording count stream).Reach Lts.anyStep s) : ∀ f ∈ s.files, f.camera < count := by
  apply h.invariant fun s => ∀ f ∈ s.files, f.camera < count
  · rintro s ⟨b, rfl⟩ f hf
    exact absurd hf List.not_mem_nil
  · intro s a t _ hs _ hstep f hf
    cases a with
    | storeOnce | stop =>
      cases hstep
      exact hs f hf
    | run complete =>
      simp only [recording, Recorder.step, Recorder.run] at hstep
      cases hpc : s.pc with
      | save m =>
        simp only [hpc] at hstep
        split at hstep
        · cases hstep
          rcases List.mem_append.mp hf with hold | hnew
          · exact hs f hold
          · rw [List.mem_singleton.mp hnew]
            assumption
        · cases hstep
          exact hs f hf
      | failed m | returned => simp [hpc] at hstep
      | begin =>
        simp only [hpc] at hstep
        split at hstep <;> cases hstep <;> exact hs f hf
      | first m | grab m =>
        simp only [hpc] at hstep
        split at hstep
        · split at hstep <;> cases hstep <;> exact hs f hf
        · cases hstep
          exact hs f hf
      | warmUp k | test | storeBeat | rearm | count | recheck =>
        simp only [hpc, Option.some.injEq] at hstep
        subst hstep
        exact hs f hf

/-- A camera has one file with each number. -/
theorem numbers_nodup (h : (recording count stream).Reach Lts.anyStep s) (i : ℕ) :
    ((s.filesOf i).map Prod.snd).Nodup := by
  by_cases hi : i < count
  · have hfiles := congrArg (List.map Prod.snd) ((recordInv h).files i hi)
    rw [Recorder.keptFrames, List.zipIdx_map_snd, List.map_append] at hfiles
    have hnodup : ((s.filesOf i).map Prod.snd ++ (s.unsaved i).map Prod.snd).Nodup :=
      hfiles ▸ List.nodup_range'
    exact hnodup.of_append_left
  · have hnone : s.filesOf i = [] := by
      apply List.filterMap_eq_nil_iff.mpr
      intro f hf
      have hcamera := camera_lt h f hf
      exact if_neg (by omega)
    rw [hnone]
    exact List.nodup_nil

theorem cells_nodup {files : List SavedFrame} (h : ∀ i, ((files.filterMap fun f =>
      if f.camera = i then some (f.image, f.number) else none).map Prod.snd).Nodup) :
    (files.map fun f => (f.camera, f.number)).Nodup := by
  induction files with
  | nil => exact List.nodup_nil
  | cons f files ih =>
    rw [List.map_cons, List.nodup_cons]
    constructor
    · intro hmem
      obtain ⟨g, hg, hcell⟩ := List.mem_map.mp hmem
      obtain ⟨hcamera, hnumber⟩ := Prod.mk.inj hcell
      have hown := h f.camera
      rw [List.filterMap_cons, if_pos rfl, List.map_cons, List.nodup_cons] at hown
      apply hown.1
      exact List.mem_map.mpr ⟨_, List.mem_filterMap.mpr ⟨g, hg, if_pos hcamera⟩, hnumber⟩
    · exact ih fun i => (h i).sublist (((List.sublist_cons_self f files).filterMap _).map _)

theorem framePath_inj {storages : List Path} (hnodup : storages.Nodup) {f g : SavedFrame}
    (hf : f.camera < storages.length) (hg : g.camera < storages.length)
    (h : framePath storages f = framePath storages g) : (f.camera, f.number) = (g.camera, g.number) := by
  rw [framePath, framePath, List.getElem?_eq_getElem hf, List.getElem?_eq_getElem hg] at h
  obtain ⟨hdir, hname⟩ := append_sep_inj (slash_not_mem_rawName _) (slash_not_mem_rawName _) h
  rw [Prod.mk.injEq]
  exact ⟨(hnodup.getElem_inj_iff).mp hdir, rawName_injective hname⟩

/-- In every run: the directories are new, and the frames go to different files and to none that was there
before. What exists is a tree. -/
theorem frames_never_overwritten {existing : List Path} (backup : Path) (serials : List ℕ)
    (htree : ∀ dir name, dir ++ '/' :: name ∈ existing → dir ∈ existing)
    (h : (recording serials.length stream).Reach Lts.anyStep s) :
    ((madeStorages existing backup serials).length = serials.length + 1 ∧
      (madeStorages existing backup serials).Nodup ∧
        ∀ dir ∈ madeStorages existing backup serials, dir ∉ existing) ∧
    (s.files.map (framePath (mStorages existing backup serials))).Nodup ∧
      ∀ f ∈ s.files, framePath (mStorages existing backup serials) f ∉ existing := by
  have hcamera : ∀ f ∈ s.files, f.camera < (mStorages existing backup serials).length := by
    intro f hf
    rw [mStorages_length]
    exact camera_lt h f hf
  refine ⟨madeStorages_fresh, ?_, ?_⟩
  · have hcells := cells_nodup (numbers_nodup h)
    apply List.Nodup.map_on ?_ (List.Nodup.of_map _ hcells)
    intro f hf g hg heq
    exact List.inj_on_of_nodup_map hcells hf hg (framePath_inj mStorages_nodup (hcamera f hf) (hcamera g hg) heq)
  · intro f hf hold
    have hdir := htree _ _ hold
    rw [List.getElem?_eq_getElem (hcamera f hf)] at hdir
    exact mStorages_not_mem (List.getElem_mem (hcamera f hf)) hdir

/-- The directory of the run is taken, and two cameras have one serial. -/
theorem frames_never_overwritten_twice : ∃ s, (recording [5, 5].length true).Reach Lts.anyStep s ∧
    s.files.map (framePath (mStorages [[], "/d".toList] "/d".toList [5, 5])) =
      ["/d_0/5/0000000000.raw".toList, "/d_0/5_0/0000000000.raw".toList] ∧
    ∀ f ∈ s.files, framePath (mStorages [[], "/d".toList] "/d".toList [5, 5]) f ∉ [[], "/d".toList] := by
  have hreach := Lts.reach_exec (recording [5, 5].length true) Lts.anyStep (List.replicate 14 (.run true))
    (s := .initial true) ⟨true, rfl⟩ rfl fun _ _ _ => trivial
  refine ⟨_, hreach, by decide, (frames_never_overwritten _ [5, 5] ?_ hreach).2.2⟩
  intro dir name hmem
  rcases dir with - | ⟨c, - | ⟨d, dir⟩⟩ <;> simp_all

end Files

end TmkDcl.Spinnaker
