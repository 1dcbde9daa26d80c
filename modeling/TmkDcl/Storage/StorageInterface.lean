import Mathlib.Data.List.Sort
import TmkDcl.Storage.ObjectDescriptor

/-!
# Objects with a frameset for each source (storage_interface.cpp, name_generator.h)

The framesets are named with the decimal number of their source, and a frame goes to the frameset
at the position of its source among the names in the order of `strcmp`.
-/

namespace TmkDcl.Storage

/-! ### Names (name_generator.h) -/

def dtPostfixSize : ℕ := 34

def maxGeneratedNameLen : ℕ := 248

def digits (n : ℕ) : Bytes := (Nat.toDigits 10 n).map fun c => UInt8.ofNat c.toNat

def sign (n : ℤ) : Bytes := if n < 0 then literal "-" else []

/-- `%d`. -/
def decimal (n : ℤ) : Bytes := sign n ++ digits n.natAbs

/-- `%0*d`: the zeros stand behind the sign. -/
def padded (width : ℕ) (n : ℤ) : Bytes :=
  sign n ++ List.replicate (width - (decimal n).length) 48 ++ digits n.natAbs

/-- `snprintf` into a buffer of a size. -/
def snprintf (size : ℕ) (text : Bytes) : Bytes := text.take (size - 1)

/-- What `gettimeofday` and `localtime_r` answer. -/
structure LocalTime where
  tmYear : ℤ
  tmMon : ℤ
  tmMday : ℤ
  tmHour : ℤ
  tmMin : ℤ
  tmSec : ℤ
  tvUsec : ℤ

def generateDtPostfix (tm : LocalTime) : Bytes :=
  snprintf dtPostfixSize (padded 4 (1900 + tm.tmYear) ++ literal "-" ++ padded 2 (tm.tmMon + 1) ++
    literal "-" ++ padded 2 tm.tmMday ++ literal "_" ++ padded 2 tm.tmHour ++ literal "-" ++
    padded 2 tm.tmMin ++ literal "-" ++ padded 2 tm.tmSec ++ literal "." ++ padded 6 tm.tvUsec)

def generateNewObjectName (tm : LocalTime) : Bytes :=
  snprintf maxGeneratedNameLen (literal "object_" ++ generateDtPostfix tm)

def generateNameWithId (base : Bytes) (id : ℤ) (post : Bytes) : Bytes :=
  snprintf maxGeneratedNameLen (base ++ literal "_" ++ decimal id ++ literal "_" ++ post)

def generateNameWithSrcAndId (base : Bytes) (srcId id : ℤ) (post : Bytes) : Bytes :=
  snprintf maxGeneratedNameLen
    (base ++ literal "_" ++ decimal srcId ++ literal "_" ++ decimal id ++ literal "_" ++ post)

/-- What follows the first underscore. -/
def getObjectPostfix (name : Bytes) : Bytes := (name.dropWhile (· ≠ 95)).tail

/-! ### The interface -/

/-- The name of the frameset for a source of the object. -/
def framesetName (objName : Bytes) (sourceId : ℕ) : Bytes :=
  generateNameWithId (literal "frameset") sourceId (getObjectPostfix objName)

/-- `storage_interface_new_object_with_framesets`. -/
def newObjectWithFramesets (mem : Memory) (objName : Bytes) (sourceNumber : Int32) :
    ObjectDescriptor :=
  (List.range sourceNumber.toInt.toNat).foldl
    (fun obj sourceId => obj.addFrameset mem (framesetName objName sourceId) .noSave)
    (.new objName .noSave)

/-- A call that adds a frame, with the times it finds. -/
structure AddCall where
  sourceId : ℕ
  frameId : Int32
  now : ℤ
  tm : LocalTime

def AddCall.frameName (call : AddCall) : Bytes :=
  generateNameWithSrcAndId (literal "frame") call.sourceId call.frameId.toInt
    (generateDtPostfix call.tm)

def AddCall.frame (call : AddCall) : Frame :=
  ⟨.ofName call.frameName, .noSave, call.now, call.frameId, Int32.ofNat call.sourceId⟩

def ObjectDescriptor.framesetsIDs (obj : ObjectDescriptor) : List Bytes := obj.framesets.keys

/-- `storage_interface_add_frame_to_object_with_framesets`; without a result where it would leave
the vector of the names. -/
def addFrameToObjectWithFramesets (obj : ObjectDescriptor) (call : AddCall) :
    Option ObjectDescriptor :=
  obj.framesetsIDs[call.sourceId]?.map fun framesetID =>
    { obj with
      framesets := obj.framesets.modify framesetID fun fs => fs.addFrame call.frameName call.frame }

/-! ### The order of the names -/

section Order

variable {objName : Bytes} {i j : ℕ}

/-- The name under which the map has the frameset for a source. -/
def framesetKey (objName : Bytes) (sourceId : ℕ) : Bytes :=
  (ObjectID.ofName (framesetName objName sourceId)).name

theorem compare_append {a b : UInt8} (h : compare a b = .lt) (pre xs ys : Bytes) :
    compare (pre ++ a :: xs) (pre ++ b :: ys) = .lt := by
  induction pre with
  | nil =>
    show compare (a :: xs) (b :: ys) = .lt
    rw [List.compare_cons_cons, h]
    rfl
  | cons c pre ih =>
    show compare (c :: (pre ++ a :: xs)) (c :: (pre ++ b :: ys)) = .lt
    have hc : compare c c = .eq := Std.ReflCmp.compare_self
    rw [List.compare_cons_cons, hc]
    exact ih

/-- What fits into the name of an `ObjectID` is in it. -/
theorem ofName_append {head : Bytes} (hlen : head.length ≤ maxNameLength) (hzero : 0 ∉ head)
    (text : Bytes) : ∃ rest, (ObjectID.ofName (head ++ text)).name = head ++ rest := by
  refine ⟨cString (text.take (maxNameLength - head.length)), ?_⟩
  show cString ((head ++ text).take maxNameLength) = _
  rw [List.take_append, List.take_of_length_le hlen]
  apply List.takeWhile_append_of_pos
  intro b hb
  have hne : b ≠ 0 := by
    intro h
    exact hzero (h ▸ hb)
  simpa using hne

/-- A name begins with the number of its source and an underscore. -/
theorem framesetKey_eq (objName : Bytes) (hlen : (digits i).length ≤ 10) (hzero : 0 ∉ digits i) :
    ∃ rest, framesetKey objName i = literal "frameset_" ++ digits i ++ 95 :: rest := by
  have hbase : literal "frameset" ++ literal "_" = literal "frameset_" := by decide
  have hid : decimal i = digits i := by
    have hneg : ¬ (i : ℤ) < 0 := by omega
    rw [decimal, sign, if_neg hneg]
    rfl
  have hnine : (literal "frameset_").length = 9 := by decide
  have hname : 0 ∉ literal "frameset_" := by decide
  have hhead : (literal "frameset_" ++ digits i ++ [95]).length ≤ maxNameLength := by
    have hmax : maxNameLength = 71 := rfl
    simp only [List.length_append, List.length_singleton]
    omega
  have hfits : 0 ∉ literal "frameset_" ++ digits i ++ [95] := by
    simp [hname, hzero]
  have htext : framesetName objName i = (literal "frameset_" ++ digits i ++ [95]) ++
      (getObjectPostfix objName).take
        (247 - (literal "frameset_" ++ digits i ++ [95]).length) := by
    rw [framesetName, generateNameWithId, hbase, hid]
    show List.take 247 ((literal "frameset_" ++ digits i ++ [95]) ++ _) = _
    rw [List.take_append, List.take_of_length_le (Nat.le_trans hhead (by decide))]
  obtain ⟨rest, hrest⟩ := ofName_append hhead hfits
    ((getObjectPostfix objName).take (247 - (literal "frameset_" ++ digits i ++ [95]).length))
  refine ⟨rest, ?_⟩
  rw [framesetKey, htext, hrest]
  simp

/-- Up to ten sources the names are in the order of the sources. -/
theorem framesetKey_lt (objName : Bytes) (hj : j < 10) (hij : i < j) :
    compare (framesetKey objName i) (framesetKey objName j) = .lt := by
  have hdigit : ∀ k < 10, digits k = [UInt8.ofNat (48 + k)] := by decide
  have hzero : ∀ k < 10, 0 ∉ digits k := by decide
  have hlt : ∀ k < 10, ∀ l < k, compare (UInt8.ofNat (48 + l)) (UInt8.ofNat (48 + k)) = .lt := by
    decide
  have hi : i < 10 := Nat.lt_trans hij hj
  obtain ⟨rest, hrest⟩ := framesetKey_eq objName (by simp [hdigit i hi]) (hzero i hi)
  obtain ⟨rest', hrest'⟩ := framesetKey_eq objName (by simp [hdigit j hj]) (hzero j hj)
  rw [hrest, hrest', hdigit i hi, hdigit j hj, List.append_assoc, List.append_assoc]
  exact compare_append (hlt j hj i hij) _ _ _

/-- `frameset_10_` comes before `frameset_1_`. -/
theorem framesetKey_ten_lt (objName : Bytes) :
    compare (framesetKey objName 10) (framesetKey objName 1) = .lt := by
  obtain ⟨rest, hrest⟩ := framesetKey_eq (i := 10) objName (by decide) (by decide)
  obtain ⟨rest', hrest'⟩ := framesetKey_eq (i := 1) objName (by decide) (by decide)
  have hten : literal "frameset_" ++ digits 10 = literal "frameset_1" ++ [48] := by decide
  have hone : literal "frameset_" ++ digits 1 = literal "frameset_1" := by decide
  rw [hrest, hrest', hten, hone, List.append_assoc]
  exact compare_append (by decide) _ _ _

theorem framesetKey_lt_ten (objName : Bytes) :
    compare (framesetKey objName 0) (framesetKey objName 10) = .lt := by
  obtain ⟨rest, hrest⟩ := framesetKey_eq (i := 0) objName (by decide) (by decide)
  obtain ⟨rest', hrest'⟩ := framesetKey_eq (i := 10) objName (by decide) (by decide)
  have hten : literal "frameset_" ++ digits 10 = literal "frameset_" ++ 49 :: [48] := by decide
  have hzero : literal "frameset_" ++ digits 0 = literal "frameset_" ++ 48 :: [] := by decide
  rw [hrest, hrest', hten, hzero, List.append_assoc, List.append_assoc]
  exact compare_append (by decide) _ _ _

theorem framesetKey_inj (objName : Bytes) (hi : i < 10) (hj : j < 10)
    (h : framesetKey objName i = framesetKey objName j) : i = j := by
  have hself : compare (framesetKey objName j) (framesetKey objName j) = .eq :=
    Std.ReflCmp.compare_self
  rcases Nat.lt_trichotomy i j with hlt | heq | hgt
  · have hcmp := framesetKey_lt objName hj hlt
    rw [h, hself] at hcmp
    cases hcmp
  · exact heq
  · have hcmp := framesetKey_lt objName hi hgt
    rw [h, hself] at hcmp
    cases hcmp

end Order

/-! ### The frames of each source -/

/-- The frameset with the frames of some calls, one after the other. -/
def Frameset.addCalls (fs : Frameset) (calls : List AddCall) : Frameset :=
  calls.foldl (fun fs call => fs.addFrame call.frameName call.frame) fs

/-- After any calls the frameset that was made for a source has the frames of the calls for that
source, and no others. -/
def KeepsSourcesApart (mem : Memory) (objName : Bytes) (sourceNumber : Int32) : Prop :=
  ∀ calls : List AddCall, (∀ call ∈ calls, (call.sourceId : ℤ) < sourceNumber.toInt) →
    ∃ obj, calls.foldlM addFrameToObjectWithFramesets
        (newObjectWithFramesets mem objName sourceNumber) = some obj ∧
      ∀ i : ℕ, (i : ℤ) < sourceNumber.toInt → obj.framesets[framesetKey objName i]? =
        some ((Frameset.new mem (framesetName objName i) .noSave).addCalls
          (calls.filter fun call => call.sourceId = i))

section Sources

variable {α β : Type} {mem : Memory} {objName : Bytes} {n : ℕ}

instance : Std.Irrefl fun a b : Bytes => compare a b = .lt where
  irrefl a h := by
    have hself : compare a a = .eq := Std.ReflCmp.compare_self
    rw [hself] at h
    cases h

instance : Std.Antisymm fun a b : Bytes => compare a b = .lt where
  antisymm a b hab hba := by
    have hswap : compare a b = (compare b a).swap := Std.OrientedCmp.eq_swap
    rw [hswap, hba] at hab
    cases hab

theorem keys_eq {t : NameMap α} {l : List Bytes} (hsorted : l.Pairwise fun a b => compare a b = .lt)
    (h : ∀ k, k ∈ t ↔ k ∈ l) : t.keys = l := by
  apply Std.ExtTreeMap.ordered_keys.eq_of_mem_iff hsorted
  intro k
  rw [Std.ExtTreeMap.mem_keys]
  exact h k

theorem keys_modify (t : NameMap α) (k : Bytes) (f : α → α) : (t.modify k f).keys = t.keys := by
  apply keys_eq Std.ExtTreeMap.ordered_keys
  intro k'
  rw [Std.ExtTreeMap.mem_modify, Std.ExtTreeMap.mem_keys]

/-- An object with framesets for `n` sources. -/
def withFramesets (mem : Memory) (objName : Bytes) (n : ℕ) : ObjectDescriptor :=
  (List.range n).foldl
    (fun obj sourceId => obj.addFrameset mem (framesetName objName sourceId) .noSave)
    (.new objName .noSave)

theorem withFramesets_succ : withFramesets mem objName (n + 1) =
    (withFramesets mem objName n).addFrameset mem (framesetName objName n) .noSave := by
  rw [withFramesets, List.range_succ, List.foldl_append]
  rfl

theorem mem_withFramesets {k : Bytes} :
    k ∈ (withFramesets mem objName n).framesets ↔ ∃ i < n, framesetKey objName i = k := by
  induction n with
  | zero =>
    have hempty : k ∉ (∅ : NameMap Frameset) := Std.ExtTreeMap.not_mem_empty
    simp [withFramesets, ObjectDescriptor.new, hempty]
  | succ n ih =>
    rw [withFramesets_succ]
    show k ∈ (withFramesets mem objName n).framesets.insertIfNew (framesetKey objName n) _ ↔ _
    rw [Std.ExtTreeMap.mem_insertIfNew, ih, Std.LawfulEqCmp.compare_eq_iff_eq]
    constructor
    · intro h
      cases h with
      | inl h => exact ⟨n, n.lt_succ_self, h⟩
      | inr h =>
        obtain ⟨i, hi, hk⟩ := h
        exact ⟨i, Nat.lt_succ_of_lt hi, hk⟩
    · intro h
      obtain ⟨i, hi, hk⟩ := h
      cases Nat.lt_succ_iff_lt_or_eq.mp hi with
      | inl hlt => exact .inr ⟨i, hlt, hk⟩
      | inr heq => exact .inl (heq ▸ hk)

theorem empty_withFramesets {k : Bytes} {fs : Frameset}
    (h : (withFramesets mem objName n).framesets[k]? = some fs) : fs.frames = ∅ := by
  induction n with
  | zero =>
    have hempty : (∅ : NameMap Frameset)[k]? = none := Std.ExtTreeMap.getElem?_empty
    have hzero : (withFramesets mem objName 0).framesets = ∅ := rfl
    rw [hzero, hempty] at h
    cases h
  | succ n ih =>
    rw [withFramesets_succ] at h
    simp only [ObjectDescriptor.addFrameset, Std.ExtTreeMap.getElem?_insertIfNew] at h
    split at h
    · cases h
      rfl
    · exact ih h

theorem getElem?_withFramesets (hn : n ≤ 10) {i : ℕ} (hi : i < n) :
    (withFramesets mem objName n).framesets[framesetKey objName i]? =
      some (.new mem (framesetName objName i) .noSave) := by
  induction n with
  | zero => exact absurd hi i.not_lt_zero
  | succ n ih =>
    have hnew : framesetKey objName n ∉ (withFramesets mem objName n).framesets := by
      intro hin
      obtain ⟨j, hj, hk⟩ := mem_withFramesets.mp hin
      have heq := framesetKey_inj objName (by omega) (by omega) hk
      omega
    rw [withFramesets_succ]
    simp only [ObjectDescriptor.addFrameset, Std.ExtTreeMap.getElem?_insertIfNew]
    show (if compare (framesetKey objName n) (framesetKey objName i) = .eq ∧
      framesetKey objName n ∉ (withFramesets mem objName n).framesets then _ else _) = _
    cases Nat.lt_succ_iff_lt_or_eq.mp hi with
    | inl hlt =>
      have hne : ¬ (compare (framesetKey objName n) (framesetKey objName i) = .eq ∧
          framesetKey objName n ∉ (withFramesets mem objName n).framesets) := by
        intro h
        have heq := framesetKey_inj objName (by omega) (by omega)
          (Std.LawfulEqCmp.eq_of_compare h.1)
        omega
      rw [if_neg hne]
      exact ih (by omega) hlt
    | inr heq =>
      subst heq
      rw [if_pos ⟨Std.ReflCmp.compare_self, hnew⟩]

theorem framesetsIDs_withFramesets (hn : n ≤ 10) :
    (withFramesets mem objName n).framesetsIDs = (List.range n).map (framesetKey objName) := by
  apply keys_eq
  · rw [List.pairwise_map]
    apply List.pairwise_lt_range.imp_of_mem
    intro i j _ hj hij
    exact framesetKey_lt objName (Nat.lt_of_lt_of_le (List.mem_range.mp hj) hn) hij
  · intro k
    rw [mem_withFramesets, List.mem_map]
    simp only [List.mem_range]

/-- The object has the framesets `fs` of `n` sources, in their order. -/
structure HoldsSources (objName : Bytes) (n : ℕ) (fs : ℕ → Frameset) (obj : ObjectDescriptor) :
    Prop where
  ids : obj.framesetsIDs = (List.range n).map (framesetKey objName)
  framesets : ∀ i < n, obj.framesets[framesetKey objName i]? = some (fs i)

theorem HoldsSources.addFrame {fs : ℕ → Frameset} {obj : ObjectDescriptor} {call : AddCall}
    (hn : n ≤ 10) (h : HoldsSources objName n fs obj) (hcall : call.sourceId < n) :
    ∃ obj', addFrameToObjectWithFramesets obj call = some obj' ∧
      HoldsSources objName n (Function.update fs call.sourceId
        ((fs call.sourceId).addFrame call.frameName call.frame)) obj' := by
  have hid : obj.framesetsIDs[call.sourceId]? = some (framesetKey objName call.sourceId) := by
    rw [h.ids, List.getElem?_map, List.getElem?_range hcall]
    rfl
  refine ⟨_, by rw [addFrameToObjectWithFramesets, hid]; rfl, ?_, ?_⟩
  · rw [ObjectDescriptor.framesetsIDs, keys_modify]
    exact h.ids
  · intro i hi
    show (obj.framesets.modify _ _)[framesetKey objName i]? = _
    rw [Std.ExtTreeMap.getElem?_modify]
    by_cases heq : i = call.sourceId
    · subst heq
      rw [if_pos Std.ReflCmp.compare_self, h.framesets _ hi, Function.update_self]
      rfl
    · have hne : ¬ compare (framesetKey objName call.sourceId) (framesetKey objName i) = .eq := by
        intro hcmp
        apply heq
        exact (framesetKey_inj objName (by omega) (by omega)
          (Std.LawfulEqCmp.eq_of_compare hcmp)).symm
      rw [if_neg hne, h.framesets i hi, Function.update_of_ne heq]

theorem HoldsSources.addCalls {fs : ℕ → Frameset} {obj : ObjectDescriptor} (hn : n ≤ 10)
    (calls : List AddCall) (h : HoldsSources objName n fs obj)
    (hcalls : ∀ call ∈ calls, call.sourceId < n) :
    ∃ obj', calls.foldlM addFrameToObjectWithFramesets obj = some obj' ∧
      HoldsSources objName n (fun i => (fs i).addCalls (calls.filter fun call => call.sourceId = i))
        obj' := by
  induction calls generalizing fs obj with
  | nil => exact ⟨obj, rfl, h⟩
  | cons call calls ih =>
    obtain ⟨mid, hmid, hheld⟩ := h.addFrame hn (hcalls call List.mem_cons_self)
    obtain ⟨last, hlast, hall⟩ := ih hheld fun c hc => hcalls c (List.mem_cons_of_mem _ hc)
    refine ⟨last, ?_, ?_⟩
    · rw [List.foldlM_cons, hmid]
      exact hlast
    · have hsame : (fun i => (Function.update fs call.sourceId
          ((fs call.sourceId).addFrame call.frameName call.frame) i).addCalls
            (calls.filter fun c => c.sourceId = i)) =
          fun i => (fs i).addCalls ((call :: calls).filter fun c => c.sourceId = i) := by
        funext i
        by_cases heq : call.sourceId = i
        · subst heq
          rw [Function.update_self, List.filter_cons, if_pos (decide_eq_true rfl)]
          rfl
        · rw [Function.update_of_ne (Ne.symm heq), List.filter_cons,
            if_neg (by simpa using heq)]
      exact hsame ▸ hall

/-- With more than ten sources the names of the sources 0 and 10 come before that of source 1. -/
theorem getElem?_framesetsIDs_one (hn : 10 < n) :
    ∃ k, (withFramesets mem objName n).framesetsIDs[1]? = some k ∧ k ≠ framesetKey objName 1 := by
  have hsorted : (withFramesets mem objName n).framesetsIDs.Pairwise
      fun a b => compare a b = .lt := Std.ExtTreeMap.ordered_keys
  have hmem : ∀ i < n, framesetKey objName i ∈ (withFramesets mem objName n).framesetsIDs := by
    intro i hi
    exact Std.ExtTreeMap.mem_keys.mpr (mem_withFramesets.mpr ⟨i, hi, rfl⟩)
  generalize (withFramesets mem objName n).framesetsIDs = ids at hsorted hmem
  have hbefore : ∀ (i j : ℕ) (hi : i < ids.length) (hj : j < ids.length),
      compare ids[i] ids[j] = .lt → i < j := by
    intro i j hi hj hlt
    rcases Nat.lt_trichotomy i j with h | h | h
    · exact h
    · subst h
      exact absurd hlt (irrefl_of (fun a b : Bytes => compare a b = .lt) _)
    · have hgt := List.pairwise_iff_getElem.mp hsorted j i hj hi h
      have heq := antisymm_of (fun a b : Bytes => compare a b = .lt) hlt hgt
      rw [heq] at hlt
      exact absurd hlt (irrefl_of (fun a b : Bytes => compare a b = .lt) _)
  obtain ⟨i, hi, h0⟩ := List.getElem_of_mem (hmem 0 (by omega))
  obtain ⟨j, hj, h10⟩ := List.getElem_of_mem (hmem 10 hn)
  obtain ⟨k, hk, h1⟩ := List.getElem_of_mem (hmem 1 (by omega))
  have hij : i < j := hbefore i j hi hj (by rw [h0, h10]; exact framesetKey_lt_ten objName)
  have hjk : j < k := hbefore j k hj hk (by rw [h10, h1]; exact framesetKey_ten_lt objName)
  have hone : 1 < ids.length := by omega
  refine ⟨ids[1], List.getElem?_eq_getElem hone, ?_⟩
  intro heq
  have hlt := List.pairwise_iff_getElem.mp hsorted 1 k hone hk (by omega)
  rw [heq, h1] at hlt
  exact absurd hlt (irrefl_of (fun a b : Bytes => compare a b = .lt) _)

/-- A frame of source 1 is lost to it with more than ten sources. -/
theorem not_keepsSourcesApart {sourceNumber : Int32} (hn : 10 < sourceNumber.toInt) :
    ¬ KeepsSourcesApart mem objName sourceNumber := by
  intro h
  obtain ⟨obj, hobj, hall⟩ := h [⟨1, 0, 0, ⟨0, 0, 0, 0, 0, 0, 0⟩⟩] (by
    intro call hcall
    rw [List.mem_singleton.mp hcall]
    show (1 : ℤ) < sourceNumber.toInt
    omega)
  have hlen : 10 < sourceNumber.toInt.toNat := by omega
  obtain ⟨k, hk, hne⟩ : ∃ k, (withFramesets mem objName
      sourceNumber.toInt.toNat).framesetsIDs[1]? = some k ∧ k ≠ framesetKey objName 1 :=
    getElem?_framesetsIDs_one hlen
  have hstep : addFrameToObjectWithFramesets (withFramesets mem objName sourceNumber.toInt.toNat)
      ⟨1, 0, 0, ⟨0, 0, 0, 0, 0, 0, 0⟩⟩ = some obj := by
    simpa [newObjectWithFramesets, withFramesets] using hobj
  rw [addFrameToObjectWithFramesets, hk, Option.map_some, Option.some.injEq] at hstep
  have hframe := hall 1 (by omega)
  rw [← hstep, Std.ExtTreeMap.getElem?_modify, if_neg] at hframe
  · have hempty := empty_withFramesets hframe
    simp [Frameset.addCalls, Frameset.addFrame] at hempty
  · intro hcmp
    exact hne (Std.LawfulEqCmp.eq_of_compare hcmp)

/-- The frames of every source are kept apart exactly with at most ten sources. -/
theorem keepsSourcesApart_iff (mem : Memory) (tm : LocalTime) (sourceNumber : Int32) :
    KeepsSourcesApart mem (generateNewObjectName tm) sourceNumber ↔ sourceNumber.toInt ≤ 10 := by
  constructor
  · intro h
    by_contra hn
    exact not_keepsSourcesApart (by omega) h
  · intro hn calls hcalls
    have hlen : sourceNumber.toInt.toNat ≤ 10 := by omega
    have hstart : HoldsSources (generateNewObjectName tm) sourceNumber.toInt.toNat
        (fun i => .new mem (framesetName (generateNewObjectName tm) i) .noSave)
        (withFramesets mem (generateNewObjectName tm) sourceNumber.toInt.toNat) :=
      ⟨framesetsIDs_withFramesets hlen, fun i hi => getElem?_withFramesets hlen hi⟩
    obtain ⟨obj, hobj, hheld⟩ := hstart.addCalls hlen calls (by
      intro call hcall
      have hlt := hcalls call hcall
      omega)
    exact ⟨obj, hobj, fun i hi => hheld.framesets i (by omega)⟩

end Sources

/-- With eleven sources the frames of source 1 go to the frameset of source 10. -/
theorem not_keepsSourcesApart_eleven : ¬ KeepsSourcesApart ⟨fun _ => .noSave, 0, fun _ _ => 0⟩
    (generateNewObjectName ⟨121, 3, 20, 12, 30, 15, 123456⟩) 11 :=
  not_keepsSourcesApart (by decide)

end TmkDcl.Storage
