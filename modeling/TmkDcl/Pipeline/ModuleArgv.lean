import TmkDcl.Bytes
import TmkDcl.Pipeline.ModulesConfiguration

/-!
# The argument vector of a module (pipeline/config/src/config.cpp)

The vector has a place for the name only if there is one, but in either case the loop reads the
parameter before its index; and a buffer gets the size of its string without the NUL.
-/

namespace TmkDcl.Pipeline

/-- A buffer from `malloc`, and what `strcpy` wrote to it. -/
structure Buffer where
  size : ℕ
  written : Bytes

def Buffer.text (b : Buffer) : Bytes := cString b.written

inductive Slot where
  | uninit
  | null
  | text (buffer : Buffer)

/-- `argv`, with the indices used into it and into `params` and the lengths there. -/
structure Argv where
  slots : List Slot
  indices : List (ℤ × ℕ)

/-- `malloc(s.size())`, and `strcpy` of `s.c_str()`. -/
def copyString (s : Bytes) : Slot := .text ⟨s.length, cString s ++ [0]⟩

def Argv.store (argv : Argv) (i : ℕ) (slot : Slot) : Argv :=
  ⟨argv.slots.set i slot, argv.indices ++ [((i : ℤ), argv.slots.length)]⟩

/-- `params[i]`; `outside` is what lies around them. -/
def paramAt (outside : ℤ → Bytes) (params : List Bytes) (i : ℤ) : Bytes :=
  if 0 ≤ i then params.getD i.toNat (outside i) else outside i

/-- A round of the loop over the parameters (`config.cpp:98-101`). -/
def storeParam (outside : ℤ → Bytes) (params : List Bytes) (argv : Argv) (j : ℕ) : Argv :=
  let argv := { argv with indices := argv.indices ++ [((j : ℤ) - 1, params.length)] }
  argv.store j (copyString (paramAt outside params ((j : ℤ) - 1)))

/-- `modules[i].argv` (`config.cpp:82-101`). -/
def buildArgv (outside : ℤ → Bytes) (name : Option Bytes) (params : List Bytes) : Argv :=
  let hasName := if name.isNone then 0 else 1
  let pSize := params.length
  let argv : Argv := ⟨List.replicate (pSize + 1 + hasName) .uninit, []⟩
  let argv := match name with
    | some name => argv.store 0 (copyString name)
    | none => argv
  let argv := argv.store (pSize + hasName) .null
  (List.range' hasName pSize).foldl (storeParam outside params) argv

def Argv.InRange (argv : Argv) : Prop := ∀ i ∈ argv.indices, 0 ≤ i.1 ∧ i.1 < i.2

/-- The name and the parameters, each in a buffer with room for it, and a `NULL`. -/
structure WellFormed (name : Option Bytes) (params : List Bytes) (argv : Argv) : Prop where
  strings : ∃ buffers : List Buffer, argv.slots = buffers.map .text ++ [.null] ∧
    buffers.map Buffer.text = name.toList ++ params
  inRange : argv.InRange
  room : ∀ b, .text b ∈ argv.slots → b.written.length ≤ b.size

/-! ### The buffers -/

section Strings

variable {s : Bytes}

theorem text_copyString : (Buffer.mk s.length (cString s ++ [0])).text = cString s := by
  rw [Buffer.text, cString_append]
  exact cString_eq_self.mpr (not_mem_cString s)

/-- Only a string that is cut at a NUL fits in its buffer. -/
theorem copyString_room : (cString s ++ [0]).length ≤ s.length ↔ 0 ∈ s := by
  constructor
  · intro h
    by_contra hnot
    rw [cString_eq_self.mpr hnot, List.length_append, List.length_singleton] at h
    exact Nat.not_succ_le_self _ h
  · intro h
    rw [← take_cString h]
    exact List.length_take_le' _ _

/-- No string is both in its buffer and inside of it. -/
theorem copyString_bad (htext : cString s = s) : ¬ (cString s ++ [0]).length ≤ s.length := by
  intro hroom
  exact cString_eq_self.mp htext (copyString_room.mp hroom)

end Strings

/-! ### The loop over the parameters -/

section Loop

variable {outside : ℤ → Bytes} {params : List Bytes} {argv : Argv}

/-- The string that a round stores at a place. -/
def paramSlot (outside : ℤ → Bytes) (params : List Bytes) (j : ℕ) : Slot :=
  copyString (paramAt outside params ((j : ℤ) - 1))

theorem storeParam_slots (j : ℕ) : (storeParam outside params argv j).slots =
    argv.slots.set j (paramSlot outside params j) := rfl

theorem mem_storeParam_indices {i : ℤ × ℕ} {j : ℕ} :
    i ∈ (storeParam outside params argv j).indices ↔ i ∈ argv.indices ∨
      i = ((j : ℤ) - 1, params.length) ∨ i = ((j : ℤ), argv.slots.length) := by
  simp only [storeParam, Argv.store, List.mem_append, List.mem_singleton, or_assoc]

theorem storeParams_slots {first n : ℕ} (h : first + n ≤ argv.slots.length) :
    ((List.range' first n).foldl (storeParam outside params) argv).slots =
      storeAt argv.slots first ((List.range' first n).map (paramSlot outside params)) := by
  induction n generalizing first argv with
  | zero => simp [storeAt]
  | succ n ih =>
    rw [List.range'_succ, List.foldl_cons, ih, storeParam_slots]
    · exact storeAt_set (by omega)
    · rw [storeParam_slots, List.length_set]
      omega

theorem mem_storeParams_indices {first n : ℕ} {i : ℤ × ℕ} :
    i ∈ ((List.range' first n).foldl (storeParam outside params) argv).indices ↔
      i ∈ argv.indices ∨ ∃ j, first ≤ j ∧ j < first + n ∧
        (i = ((j : ℤ) - 1, params.length) ∨ i = ((j : ℤ), argv.slots.length)) := by
  induction n generalizing first argv with
  | zero =>
    have hnone : ¬ ∃ j, first ≤ j ∧ j < first + 0 ∧
        (i = ((j : ℤ) - 1, params.length) ∨ i = ((j : ℤ), argv.slots.length)) := by
      intro ⟨j, hle, hlt, _⟩
      omega
    exact (or_iff_left hnone).symm
  | succ n ih =>
    rw [List.range'_succ, List.foldl_cons, ih, mem_storeParam_indices, storeParam_slots,
      List.length_set, or_assoc]
    refine or_congr_right ?_
    constructor
    · intro h
      rcases h with h | ⟨j, hle, hlt, hj⟩
      · exact ⟨first, Nat.le_refl _, by omega, h⟩
      · exact ⟨j, by omega, by omega, hj⟩
    · intro ⟨j, hle, hlt, hj⟩
      rcases Nat.eq_or_lt_of_le hle with rfl | hle
      · exact .inl hj
      · exact .inr ⟨j, hle, by omega, hj⟩

end Loop

/-! ### The whole vector -/

section Build

variable {outside : ℤ → Bytes} {name : Bytes} {params : List Bytes}

/-- From the first parameter on, the loop copies the parameters in order. -/
theorem paramSlots_named :
    (List.range' 1 params.length).map (paramSlot outside params) = params.map copyString := by
  apply List.ext_getElem
  · rw [List.length_map, List.length_map, List.length_range']
  · intro i hi _
    rw [List.length_map, List.length_range'] at hi
    rw [List.getElem_map, List.getElem_map, List.getElem_range', paramSlot, paramAt]
    have hindex : ((1 + 1 * i : ℕ) : ℤ) - 1 = i := by omega
    rw [hindex, if_pos (Int.natCast_nonneg i), Int.toNat_natCast, List.getD_eq_getElem?_getD,
      List.getElem?_eq_getElem hi, Option.getD_some]

theorem set_replicate {n : ℕ} :
    (List.replicate (n + 1) Slot.uninit).set n .null = List.replicate n .uninit ++ [.null] := by
  rw [List.replicate_succ', List.set_append_right _ _ (by rw [List.length_replicate]),
    List.length_replicate, Nat.sub_self, List.set_cons_zero]

theorem buildArgv_some : buildArgv outside (some name) params =
    (List.range' 1 params.length).foldl (storeParam outside params)
      ⟨copyString name :: (List.replicate params.length .uninit ++ [.null]),
        [(0, params.length + 2), (params.length + 1, params.length + 2)]⟩ := by
  rw [← set_replicate, buildArgv]
  simp [Argv.store, List.replicate_succ]

theorem buildArgv_none : buildArgv outside none params =
    (List.range' 0 params.length).foldl (storeParam outside params)
      ⟨List.replicate params.length .uninit ++ [.null],
        [((params.length : ℤ), params.length + 1)]⟩ := by
  rw [← set_replicate, buildArgv]
  simp [Argv.store]

theorem buildArgv_named : (buildArgv outside (some name) params).slots =
    (name :: params).map copyString ++ [.null] := by
  have hrest : (copyString name :: (List.replicate params.length .uninit ++ [.null])).drop
      (1 + params.length) = [.null] := by
    rw [Nat.add_comm, List.drop_succ_cons, List.drop_left' List.length_replicate]
  rw [buildArgv_some, storeParams_slots, paramSlots_named, storeAt, List.length_map, hrest]
  · rfl
  · simp only [List.length_cons, List.length_append, List.length_replicate, List.length_nil]
    omega

theorem inRange_named : (buildArgv outside (some name) params).InRange := by
  intro i hi
  rw [buildArgv_some, mem_storeParams_indices] at hi
  rcases hi with hi | ⟨j, hle, hlt, hi⟩
  · rcases List.mem_pair.mp hi with rfl | rfl
    · exact ⟨Int.le_refl 0, by omega⟩
    · exact ⟨by omega, by omega⟩
  · simp only [List.length_cons, List.length_append, List.length_replicate, List.length_nil] at hi
    rcases hi with rfl | rfl
    · exact ⟨by omega, by omega⟩
    · exact ⟨by omega, by omega⟩

/-- Without a name the first round reads `params[-1]`. -/
theorem not_inRange_unnamed (h : params ≠ []) : ¬ (buildArgv outside none params).InRange := by
  intro hrange
  have hpos : 0 < 0 + params.length := by
    rw [Nat.zero_add]
    exact List.length_pos_iff.mpr h
  have hmem : (((0 : ℕ) : ℤ) - 1, params.length) ∈ (buildArgv outside none params).indices := by
    rw [buildArgv_none, mem_storeParams_indices]
    exact .inr ⟨0, Nat.le_refl _, hpos, .inl rfl⟩
  have hneg : (0 : ℤ) ≤ ((0 : ℕ) : ℤ) - 1 := (hrange _ hmem).1
  omega

theorem wellFormed_empty : WellFormed none [] (buildArgv outside none []) where
  strings := ⟨[], rfl, rfl⟩
  inRange := by
    intro i hi
    rw [List.mem_singleton.mp hi]
    decide
  room := by
    intro b hb
    cases List.mem_singleton.mp hb

/-- The name itself is cut, or does not fit. -/
theorem not_wellFormed_named :
    ¬ WellFormed (some name) params (buildArgv outside (some name) params) := by
  intro h
  obtain ⟨buffers, hslots, htexts⟩ := h.strings
  rw [buildArgv_named] at hslots
  have hbuffers := List.append_cancel_right hslots
  cases buffers with
  | nil => cases hbuffers
  | cons b buffers =>
    have hb : Buffer.mk name.length (cString name ++ [0]) = b :=
      Slot.text.inj (List.cons.inj hbuffers).1
    have htext : b.text = name := (List.cons.inj htexts).1
    have hroom := h.room b (by rw [buildArgv_named, ← hb]; exact List.mem_cons_self)
    subst hb
    exact copyString_bad (text_copyString.symm.trans htext) hroom

end Build

/-! ### The strings of the document -/

/-- `std::string` of a JSON string. -/
def utf8 (s : String) : Bytes := s.toUTF8.data.toList

/-- The name of an entry that has a string or `null` for it. -/
def nameJson : Option String → Json
  | none => .null
  | some name => .string name

section Document

variable {outside : ℤ → Bytes} {name : Option String} {params argv : List String}

theorem readArgv_slots (h : readArgv (nameJson name) params = .ok argv) :
    (buildArgv outside (name.map utf8) (params.map utf8)).slots =
      (argv.map utf8).map copyString ++ [.null] := by
  cases name with
  | none =>
    by_cases hparams : params = []
    · subst hparams
      cases h
      rfl
    · rw [readArgv, nameJson, Json.isNull, if_pos rfl, if_neg hparams] at h
      cases h
  | some name =>
    cases h
    exact buildArgv_named

/-- The reading goes wrong exactly where an index is out of range. -/
theorem readArgv_outOfBounds : readArgv (nameJson name) params = .error .outOfBounds ↔
    ¬ (buildArgv outside (name.map utf8) (params.map utf8)).InRange := by
  cases name with
  | none =>
    by_cases hparams : params = []
    · subst hparams
      exact iff_of_false nofun (not_not_intro wellFormed_empty.inRange)
    · refine iff_of_true ?_ (not_inRange_unnamed (mt List.map_eq_nil_iff.mp hparams))
      rw [readArgv, nameJson, Json.isNull, if_pos rfl, if_neg hparams]
  | some name => exact iff_of_false nofun (not_not_intro inRange_named)

end Document

/-- The vector is well formed only if there is no string in it. -/
theorem wellFormed_iff (outside : ℤ → Bytes) (name : Option Bytes) (params : List Bytes) :
    WellFormed name params (buildArgv outside name params) ↔ name = none ∧ params = [] := by
  cases name with
  | some name => exact iff_of_false not_wellFormed_named nofun
  | none =>
    by_cases hparams : params = []
    · subst hparams
      exact iff_of_true wellFormed_empty ⟨rfl, rfl⟩
    · refine iff_of_false ?_ fun h => hparams h.2
      intro h
      exact not_inRange_unnamed hparams h.inRange

/-- An accepted document, whose modules have a name and no parameters. -/
theorem not_wellFormed_bin :
    readModulesConfiguration (twoModules 1 7) =
      .ok [⟨1, .first, 7, ["bin/tmk"]⟩, ⟨7, .last, -1, ["bin/tmk"]⟩] ∧
    ¬ WellFormed (some (utf8 "bin/tmk")) [] (buildArgv (fun _ => []) (some (utf8 "bin/tmk")) []) :=
  ⟨by rfl, not_wellFormed_named⟩

end TmkDcl.Pipeline
