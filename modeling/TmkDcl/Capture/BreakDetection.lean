import Mathlib.Algebra.Order.Ring.Rat
import Mathlib.Data.List.Infix
import Mathlib.Data.List.TakeWhile
import Mathlib.Tactic.Linarith

/-!
# Detection of object breaks (cvcollector.cpp, dclprocessor.cpp)

`cv_collect_data_thread` and `object_detection_callback` count the frames of an object by the radius
that is found in each of them. The counters are `int`s.
-/

namespace TmkDcl.Capture.BreakDetection

/-- A `float`. -/
inductive Radius where
  | nan
  | negInfinity
  | infinity
  | finite (q : ℚ)
  deriving DecidableEq

/-- `radius < bound`. -/
def Radius.below (bound : ℚ) : Radius → Bool
  | .nan => false
  | .negInfinity => true
  | .infinity => false
  | .finite q => q < bound

/-- `radius >= bound`. -/
def Radius.atLeast (bound : ℚ) : Radius → Bool
  | .nan => false
  | .negInfinity => false
  | .infinity => true
  | .finite q => bound ≤ q

structure Detector where
  framesObjCnt : Int32
  framesEmptyCnt : Int32
  framesNonCnt : Int32
  newObject : Bool
  deriving DecidableEq

def Detector.start : Detector := ⟨0, 0, 0, false⟩

/-- What both functions do with a radius, and whether they report a break (`sem_post` of `data_ready`,
or 1 as the result of the callback). -/
def Detector.frame (s : Detector) (radius : Radius) : Detector × Bool :=
  if radius.below 135 && !s.newObject then
    let s := { s with framesEmptyCnt := s.framesEmptyCnt + 1 }
    if 16 ≤ s.framesObjCnt ∧ 8 ≤ s.framesEmptyCnt then
      ({ s with newObject := false, framesObjCnt := 0, framesNonCnt := 0, framesEmptyCnt := 0 }, true)
    else (s, false)
  else if radius.atLeast 150 then
    ({ s with
        framesObjCnt := s.framesObjCnt + 1 + s.framesEmptyCnt + s.framesNonCnt
        framesEmptyCnt := 0
        framesNonCnt := 0 }, false)
  else ({ s with framesNonCnt := s.framesNonCnt + 1 }, false)

def runStep (x : Detector × List Bool) (radius : Radius) : Detector × List Bool :=
  ((x.1.frame radius).1, x.2 ++ [(x.1.frame radius).2])

/-- The detector after some frames, and at which of them a break was reported. -/
def run (radii : List Radius) : Detector × List Bool := radii.foldl runStep (.start, [])

/-! ### What is counted -/

/-- The frames since the last break, or the start. -/
def sinceBreak (radii : List Radius) : List Radius :=
  (((radii.zip (run radii).2).reverse.takeWhile fun frame => !frame.2).map Prod.fst).reverse

/-- The frames since the last one of an object, the latest first. -/
def sinceObject (radii : List Radius) : List Radius :=
  radii.reverse.takeWhile fun radius => !radius.atLeast 150

/-- The frames up to the last one of an object. -/
def credited (radii : List Radius) : ℕ := radii.length - (sinceObject radii).length

/-- The empty frames since the last one of an object. -/
def emptySince (radii : List Radius) : ℕ := (sinceObject radii).countP (Radius.below 135)

/-- The frames since the last one of an object that are not empty. -/
def unclearSince (radii : List Radius) : ℕ := (sinceObject radii).length - emptySince radii

/-- The counters count the frames of a segment. -/
structure Counts (segment : List Radius) (s : Detector) : Prop where
  obj : s.framesObjCnt = Int32.ofNat (credited segment)
  empty : s.framesEmptyCnt = Int32.ofNat (emptySince segment)
  non : s.framesNonCnt = Int32.ofNat (unclearSince segment)
  newObject : s.newObject = false

section Segments

variable {radii : List Radius} {radius : Radius}

theorem not_below (h : radius.atLeast 150 = true) : radius.below 135 = false := by
  cases radius with
  | nan => rfl
  | negInfinity => cases h
  | infinity => rfl
  | finite q =>
    have hq : (150 : ℚ) ≤ q := of_decide_eq_true h
    exact decide_eq_false (by linarith)

theorem not_atLeast (h : radius.below 135 = true) : radius.atLeast 150 = false := by
  cases hobject : radius.atLeast 150 with
  | false => rfl
  | true => rw [not_below hobject] at h; cases h

theorem sinceObject_length_le (radii : List Radius) : (sinceObject radii).length ≤ radii.length := by
  have hle := ((radii.reverse).takeWhile_sublist fun radius => !radius.atLeast 150).length_le
  rwa [List.length_reverse] at hle

theorem sinceObject_concat : sinceObject (radii ++ [radius]) =
    if radius.atLeast 150 then [] else radius :: sinceObject radii := by
  rw [sinceObject, List.reverse_append, List.reverse_singleton, List.singleton_append,
    List.takeWhile_cons]
  cases radius.atLeast 150 <;> rfl

theorem classes_length (radii : List Radius) :
    credited radii + emptySince radii + unclearSince radii = radii.length := by
  have hle := sinceObject_length_le radii
  have hcount : emptySince radii ≤ (sinceObject radii).length := List.countP_le_length
  unfold credited unclearSince
  omega

/-- A frame of an object takes all frames before it to the object. -/
theorem classes_object (h : radius.atLeast 150 = true) : credited (radii ++ [radius]) =
    credited radii + 1 + emptySince radii + unclearSince radii ∧
      emptySince (radii ++ [radius]) = 0 ∧ unclearSince (radii ++ [radius]) = 0 := by
  have hsince : sinceObject (radii ++ [radius]) = [] := by rw [sinceObject_concat, if_pos h]
  have hempty : emptySince (radii ++ [radius]) = 0 := by
    rw [emptySince, hsince]
    rfl
  have hunclear : unclearSince (radii ++ [radius]) = 0 := by
    rw [unclearSince, hempty, hsince]
    rfl
  have hlength := classes_length (radii ++ [radius])
  rw [hempty, hunclear, List.length_append, List.length_singleton, ← classes_length radii] at hlength
  exact ⟨by omega, hempty, hunclear⟩

theorem classes_other (h : radius.atLeast 150 = false) : credited (radii ++ [radius]) =
    credited radii ∧
      emptySince (radii ++ [radius]) = emptySince radii + (radius.below 135).toNat ∧
      unclearSince (radii ++ [radius]) = unclearSince radii + (!radius.below 135).toNat := by
  have hsince : sinceObject (radii ++ [radius]) = radius :: sinceObject radii := by
    rw [sinceObject_concat, h]
    rfl
  have hle := sinceObject_length_le radii
  have hcount : emptySince radii ≤ (sinceObject radii).length := List.countP_le_length
  have hempty : emptySince (radii ++ [radius]) = emptySince radii + (radius.below 135).toNat := by
    rw [emptySince, hsince, List.countP_cons, emptySince]
    cases radius.below 135 <;> rfl
  refine ⟨?_, hempty, ?_⟩
  · rw [credited, credited, hsince, List.length_append, List.length_singleton, List.length_cons]
    omega
  · rw [unclearSince, unclearSince, hempty, hsince, List.length_cons]
    cases radius.below 135 with
    | false =>
      show _ + 1 - (emptySince radii + 0) = _ - emptySince radii + 1
      omega
    | true =>
      show _ + 1 - (emptySince radii + 1) = _ - emptySince radii + 0
      omega

end Segments

/-! ### The detector keeps the accounts -/

section Detection

variable {segment radii : List Radius} {radius : Radius} {s : Detector}

theorem counts_start : Counts [] .start := ⟨rfl, rfl, rfl, rfl⟩

theorem frame_reports (h : s.newObject = false) : (s.frame radius).2 = true ↔
    radius.below 135 = true ∧ 16 ≤ s.framesObjCnt ∧ 8 ≤ s.framesEmptyCnt + 1 := by
  unfold Detector.frame
  rw [h]
  cases radius.below 135 with
  | false =>
    cases radius.atLeast 150 with
    | false => simp
    | true => simp
  | true =>
    simp only [Bool.not_false, Bool.and_self, if_true, true_and]
    split
    · rename_i hfull
      exact iff_of_true rfl hfull
    · rename_i hfull
      exact iff_of_false Bool.false_ne_true hfull

theorem Counts.frame (h : Counts segment s) (radius : Radius) :
    Counts (if (s.frame radius).2 then [] else segment ++ [radius]) (s.frame radius).1 := by
  unfold Detector.frame
  rw [h.newObject]
  cases hbelow : radius.below 135 with
  | true =>
    obtain ⟨hcredited, hempty, hunclear⟩ := classes_other (not_atLeast hbelow)
    simp only [Bool.not_false, Bool.and_self, if_true]
    split
    · exact ⟨rfl, rfl, rfl, rfl⟩
    · rw [hbelow] at hempty hunclear
      refine ⟨?_, ?_, ?_, rfl⟩
      · rw [if_neg Bool.false_ne_true, hcredited]
        exact h.obj
      · rw [if_neg Bool.false_ne_true, hempty, h.empty]
        exact (Int32.ofNat_add _ 1).symm
      · rw [if_neg Bool.false_ne_true, hunclear]
        exact h.non
  | false =>
    simp only [Bool.not_false, Bool.and_true, Bool.false_eq_true, if_false]
    cases hobject : radius.atLeast 150 with
    | true =>
      obtain ⟨hcredited, hempty, hunclear⟩ := classes_object hobject
      simp only [if_true, Bool.false_eq_true, if_false]
      refine ⟨?_, ?_, ?_, rfl⟩
      · rw [hcredited, Int32.ofNat_add, Int32.ofNat_add, Int32.ofNat_add, h.obj, h.empty, h.non]
        rfl
      · rw [hempty]
        rfl
      · rw [hunclear]
        rfl
    | false =>
      obtain ⟨hcredited, hempty, hunclear⟩ := classes_other hobject
      rw [hbelow] at hempty hunclear
      simp only [Bool.false_eq_true, if_false]
      refine ⟨?_, ?_, ?_, rfl⟩
      · rw [hcredited]
        exact h.obj
      · rw [hempty]
        exact h.empty
      · rw [hunclear, h.non]
        exact (Int32.ofNat_add _ 1).symm

theorem run_concat : run (radii ++ [radius]) = runStep (run radii) radius := by
  rw [run, List.foldl_append]
  rfl

theorem run_length (radii : List Radius) : (run radii).2.length = radii.length := by
  induction radii using List.reverseRecOn with
  | nil => rfl
  | append_singleton radii radius ih =>
    rw [run_concat, runStep, List.length_append, ih, List.length_append]
    rfl

theorem sinceBreak_concat : sinceBreak (radii ++ [radius]) =
    if ((run radii).1.frame radius).2 then [] else sinceBreak radii ++ [radius] := by
  rw [sinceBreak, run_concat, runStep, List.zip_append (run_length radii).symm,
    List.reverse_append, List.zip_cons_cons, List.zip_nil_right, List.reverse_singleton,
    List.singleton_append, List.takeWhile_cons]
  cases ((run radii).1.frame radius).2 with
  | true => rfl
  | false => simp [sinceBreak]

theorem counts_run (radii : List Radius) : Counts (sinceBreak radii) (run radii).1 := by
  induction radii using List.reverseRecOn with
  | nil => exact counts_start
  | append_singleton radii radius ih =>
    rw [sinceBreak_concat, run_concat]
    exact ih.frame radius

/-- What is reported of a frame depends on the frames before it. -/
theorem run_extends {radii' : List Radius} (h : radii <+: radii') :
    (run radii).2 <+: (run radii').2 := by
  obtain ⟨rest, rfl⟩ := h
  induction rest using List.reverseRecOn with
  | nil => rw [List.append_nil]
  | append_singleton rest radius ih =>
    rw [← List.append_assoc, run_concat]
    exact ih.trans (List.prefix_append _ _)

theorem break_reported_iff {i : ℕ} (hi : radii[i]? = some radius) :
    (run radii).2[i]? = some true ↔ ((run (radii.take i)).1.frame radius).2 = true := by
  obtain ⟨hlt, hget⟩ := List.getElem?_eq_some_iff.mp hi
  have htake : radii.take (i + 1) = radii.take i ++ [radius] := by
    rw [List.take_add_one, hi]
    rfl
  have hlength : (run (radii.take i)).2.length = i := by
    rw [run_length, List.length_take, Nat.min_eq_left (Nat.le_of_lt hlt)]
  have hbegin := run_extends (List.take_prefix (i + 1) radii)
  rw [htake, run_concat, runStep] at hbegin
  obtain ⟨rest, hrest⟩ := hbegin
  rw [← hrest, List.append_assoc, List.getElem?_append_right (Nat.le_of_eq hlength), hlength,
    Nat.sub_self]
  exact Option.some_inj

theorem sinceBreak_suffix (radii : List Radius) : sinceBreak radii <:+ radii := by
  induction radii using List.reverseRecOn with
  | nil => exact List.suffix_rfl
  | append_singleton radii radius ih =>
    rw [sinceBreak_concat]
    split
    · exact List.nil_suffix
    · obtain ⟨rest, hrest⟩ := ih
      exact ⟨rest, by rw [← List.append_assoc, hrest]⟩

theorem sinceBreak_length_le {i : ℕ} (h : (run radii).2[i]? = some true) :
    (sinceBreak radii).length + (i + 1) ≤ radii.length := by
  induction radii using List.reverseRecOn with
  | nil => cases h
  | append_singleton radii radius ih =>
    rw [run_concat, runStep] at h
    rw [sinceBreak_concat, List.length_append, List.length_singleton]
    by_cases hi : i < radii.length
    · rw [List.getElem?_append_left (by rwa [run_length])] at h
      have hle := ih h
      split
      · rw [List.length_nil]
        omega
      · rw [List.length_append, List.length_singleton]
        omega
    · have hsome := List.getElem?_eq_some_iff.mp h
      obtain ⟨hlt, -⟩ := hsome
      rw [List.length_append, List.length_singleton, run_length] at hlt
      have heq : i = radii.length := by omega
      rw [List.getElem?_append_right (by rw [run_length]; omega), run_length, heq,
        Nat.sub_self] at h
      rw [if_pos (Option.some.inj h), heq, List.length_nil, Nat.zero_add]

theorem emptySince_le_of_suffix {segment : List Radius} (h : segment <:+ radii) :
    emptySince segment ≤ emptySince radii := by
  obtain ⟨rest, rfl⟩ := h
  rw [emptySince, emptySince, sinceObject, sinceObject, List.reverse_append, List.takeWhile_append]
  split
  · rename_i hall
    have hself := (List.takeWhile_prefix (l := segment.reverse) _).eq_of_length hall
    rw [hself, List.countP_append]
    exact Nat.le_add_right _ _
  · exact Nat.le_refl _

theorem le_of_le_ofNat {k n : ℕ} (hk : k < 2 ^ 31) (h : Int32.ofNat k ≤ Int32.ofNat n) : k ≤ n := by
  by_contra hlt
  rw [Int32.le_iff_toInt_le, Int32.toInt_ofNat_of_lt hk, Int32.toInt_ofNat_of_lt (by omega)] at h
  omega

theorem Counts.of_reports (h : Counts segment s) (hbreak : (s.frame radius).2 = true) :
    radius.below 135 = true ∧ 16 ≤ s.framesObjCnt ∧ 16 ≤ credited segment ∧
      8 ≤ emptySince segment + 1 := by
  obtain ⟨hbelow, hobj, hempty⟩ := (frame_reports h.newObject).mp hbreak
  refine ⟨hbelow, hobj, ?_, ?_⟩
  · rw [h.obj] at hobj
    exact le_of_le_ofNat (by norm_num) hobj
  · rw [h.empty] at hempty
    refine le_of_le_ofNat (by norm_num) ?_
    rw [Int32.ofNat_add]
    exact hempty

end Detection

/-- After some frames: the counters, and the breaks that were reported. -/
structure Accounted (radii : List Radius) : Prop where
  counted : (run radii).1.framesObjCnt + (run radii).1.framesEmptyCnt +
    (run radii).1.framesNonCnt = Int32.ofNat (sinceBreak radii).length
  reported : ∀ i radius, radii[i]? = some radius → (run radii).2[i]? = some true →
    radius.below 135 = true ∧ 16 ≤ (run (radii.take i)).1.framesObjCnt ∧
      16 ≤ credited (sinceBreak (radii.take i)) ∧ 8 ≤ emptySince (radii.take (i + 1))
  apart : ∀ i j, i < j → (run radii).2[i]? = some true → (run radii).2[j]? = some true →
    i + 24 ≤ j

/-- The counters add up to the frames since the last break in the arithmetic of an `int`, and a
break needs 16 frames of an object and 8 empty ones since. -/
theorem accounted (radii : List Radius) : Accounted radii := by
  have hframe : ∀ j, (run radii).2[j]? = some true → ∃ radius, radii[j]? = some radius ∧
      ((run (radii.take j)).1.frame radius).2 = true := by
    intro j hj
    obtain ⟨hlt, -⟩ := List.getElem?_eq_some_iff.mp hj
    rw [run_length] at hlt
    have hget := List.getElem?_eq_getElem hlt
    exact ⟨_, hget, (break_reported_iff hget).mp hj⟩
  constructor
  · have hcounts := counts_run radii
    rw [hcounts.obj, hcounts.empty, hcounts.non, ← Int32.ofNat_add, ← Int32.ofNat_add,
      classes_length]
  · intro i radius hi hbreak
    obtain ⟨hbelow, hobj, hcredited, hempty⟩ :=
      (counts_run (radii.take i)).of_reports ((break_reported_iff hi).mp hbreak)
    refine ⟨hbelow, hobj, hcredited, ?_⟩
    have hle := emptySince_le_of_suffix (sinceBreak_suffix (radii.take i))
    rw [List.take_add_one, hi, Option.toList_some, (classes_other (not_atLeast hbelow)).2.1, hbelow]
    exact Nat.le_trans hempty (Nat.succ_le_succ hle)
  · intro i j hij hi hj
    obtain ⟨radius, hget, hbreak⟩ := hframe j hj
    obtain ⟨-, -, hcredited, hempty⟩ := (counts_run (radii.take j)).of_reports hbreak
    obtain ⟨hlt, -⟩ := List.getElem?_eq_some_iff.mp hget
    have hbefore : (run (radii.take j)).2[i]? = some true := by
      obtain ⟨radius', hget', hbreak'⟩ := hframe i hi
      have htake : (radii.take j)[i]? = some radius' := by
        rw [List.getElem?_take_of_lt hij]
        exact hget'
      rw [break_reported_iff htake, List.take_take, Nat.min_eq_left (Nat.le_of_lt hij)]
      exact hbreak'
    have hle := sinceBreak_length_le hbefore
    have hclasses := classes_length (sinceBreak (radii.take j))
    rw [List.length_take, Nat.min_eq_left (Nat.le_of_lt hlt)] at hle
    omega

theorem run_object {radius : Radius} (h : radius.atLeast 150 = true) (n : ℕ) :
    (run (List.replicate n radius)).1 = ⟨Int32.ofNat n, 0, 0, false⟩ ∧
      sinceBreak (List.replicate n radius) = List.replicate n radius := by
  induction n with
  | zero => exact ⟨rfl, rfl⟩
  | succ n ih =>
    have hframe : (run (List.replicate n radius)).1.frame radius =
        (⟨Int32.ofNat (n + 1), 0, 0, false⟩, false) := by
      rw [ih.1, Detector.frame, not_below h, h, Int32.ofNat_add]
      simp
    rw [List.replicate_succ', run_concat, runStep, sinceBreak_concat, hframe, ih.2]
    exact ⟨rfl, rfl⟩

/-- The first frame that an `int` cannot count. -/
theorem not_counted_object :
    ¬ ((run (List.replicate (2 ^ 31) (.finite 150))).1.framesObjCnt.toInt +
        (run (List.replicate (2 ^ 31) (.finite 150))).1.framesEmptyCnt.toInt +
        (run (List.replicate (2 ^ 31) (.finite 150))).1.framesNonCnt.toInt =
      (sinceBreak (List.replicate (2 ^ 31) (.finite 150))).length) := by
  have hobject : (Radius.finite 150).atLeast 150 = true := by decide +kernel
  obtain ⟨hrun, hsince⟩ := run_object hobject (2 ^ 31)
  rw [hrun, hsince, List.length_replicate, Int32.toInt_ofNat']
  decide

end TmkDcl.Capture.BreakDetection
