import Mathlib.Data.Int.Notation
import Mathlib.Data.List.Basic

/-!
# JSON values

The values of `nlohmann::json` with integers for numbers, over any type of strings. An object
holds its fields in the order of their keys, and assignment to a field replaces it.
-/

namespace TmkDcl

inductive Json (σ : Type) where
  | null
  | bool (b : Bool)
  | number (n : ℤ)
  | string (s : σ)
  | array (items : List (Json σ))
  | object (fields : List (String × Json σ))

/-- A value of another type, `operator[]` of a constant object without the field, or no JSON. -/
inductive JsonError where
  | type
  | missing
  | parse
  deriving DecidableEq

namespace Json

variable {σ : Type}

/-- `object[key] = value`. -/
def setField (key : String) (value : Json σ) : List (String × Json σ) → List (String × Json σ)
  | [] => [(key, value)]
  | (k, v) :: rest =>
    if key = k then (key, value) :: rest
    else if key < k then (key, value) :: (k, v) :: rest
    else (k, v) :: setField key value rest

@[simp] theorem lookup_setField_self (key : String) (value : Json σ)
    (fields : List (String × Json σ)) : (setField key value fields).lookup key = some value := by
  induction fields with
  | nil => simp [setField]
  | cons kv rest ih =>
    obtain ⟨k, v⟩ := kv
    unfold setField
    split
    · simp
    · rename_i hne
      split
      · simp
      · have hbeq : (key == k) = false := by simpa using hne
        simp [List.lookup_cons, hbeq, ih]

theorem lookup_setField_of_ne {key other : String} (h : other ≠ key) (value : Json σ)
    (fields : List (String × Json σ)) :
    (setField key value fields).lookup other = fields.lookup other := by
  have hbeq : (other == key) = false := by simpa using h
  induction fields with
  | nil => simp [setField, List.lookup_cons, hbeq]
  | cons kv rest ih =>
    obtain ⟨k, v⟩ := kv
    unfold setField
    split
    · rename_i heq
      subst heq
      simp [List.lookup_cons, hbeq]
    · split
      · simp [List.lookup_cons, hbeq]
      · simp only [List.lookup_cons, ih]

/-! ### The strings of a value -/

mutual

/-- Every string in the value, its keys aside. -/
def allStrings (p : σ → Bool) : Json σ → Bool
  | .string s => p s
  | .array items => allItems p items
  | .object fields => allFields p fields
  | _ => true

def allItems (p : σ → Bool) : List (Json σ) → Bool
  | [] => true
  | v :: rest => allStrings p v && allItems p rest

def allFields (p : σ → Bool) : List (String × Json σ) → Bool
  | [] => true
  | (_, v) :: rest => allStrings p v && allFields p rest

end

/-- The keys are in their order, so no two fields have the same. -/
def SortedFields (fields : List (String × Json σ)) : Prop := fields.Pairwise fun a b => a.1 < b.1

theorem mem_setField {key : String} {value : Json σ} {fields : List (String × Json σ)}
    {kv : String × Json σ} (h : kv ∈ setField key value fields) : kv.1 = key ∨ kv ∈ fields := by
  induction fields with
  | nil => exact .inl (congrArg Prod.fst (List.mem_singleton.mp h))
  | cons kv' rest ih =>
    unfold setField at h
    split at h
    · cases List.mem_cons.mp h with
      | inl h => exact .inl (congrArg Prod.fst h)
      | inr h => exact .inr (List.mem_cons_of_mem _ h)
    · split at h
      · cases List.mem_cons.mp h with
        | inl h => exact .inl (congrArg Prod.fst h)
        | inr h => exact .inr h
      · cases List.mem_cons.mp h with
        | inl h => exact .inr (List.mem_cons.mpr (.inl h))
        | inr h =>
          cases ih h with
          | inl h => exact .inl h
          | inr h => exact .inr (List.mem_cons_of_mem _ h)

theorem SortedFields.setField {fields : List (String × Json σ)} (h : SortedFields fields)
    (key : String) (value : Json σ) : SortedFields (setField key value fields) := by
  induction fields with
  | nil => exact List.pairwise_singleton _ _
  | cons kv rest ih =>
    obtain ⟨hhead, hrest⟩ := List.pairwise_cons.mp h
    unfold Json.setField
    split
    · rename_i heq
      exact List.pairwise_cons.mpr ⟨fun kv' hkv' => heq ▸ hhead kv' hkv', hrest⟩
    · rename_i hne
      split
      · rename_i hlt
        apply List.pairwise_cons.mpr
        refine ⟨?_, h⟩
        intro kv' hkv'
        cases List.mem_cons.mp hkv' with
        | inl heq => exact heq ▸ hlt
        | inr hmem => exact String.lt_trans hlt (hhead kv' hmem)
      · rename_i hge
        have hgt : kv.1 < key := by
          by_contra hnot
          exact hne (String.le_antisymm (String.not_lt.mp hnot) (String.not_lt.mp hge))
        apply List.pairwise_cons.mpr
        refine ⟨?_, ih hrest⟩
        intro kv' hkv'
        cases mem_setField hkv' with
        | inl heq => exact heq ▸ hgt
        | inr hmem => exact hhead kv' hmem

theorem SortedFields.mem_iff {fields : List (String × Json σ)} (h : SortedFields fields)
    {key : String} {value : Json σ} :
    (key, value) ∈ fields ↔ fields.lookup key = some value := by
  induction fields with
  | nil => simp
  | cons kv rest ih =>
    obtain ⟨k, v⟩ := kv
    obtain ⟨hhead, hrest⟩ := List.pairwise_cons.mp h
    rw [List.mem_cons, List.lookup_cons]
    by_cases hk : key = k
    · subst hk
      have hnot : (key, value) ∉ rest := fun hmem =>
        String.lt_irrefl key (hhead (key, value) hmem)
      simp [hnot, eq_comm]
    · have hbeq : (key == k) = false := by simpa using hk
      rw [hbeq]
      simp [hk, ih hrest]

theorem SortedFields.ext {a b : List (String × Json σ)} (ha : SortedFields a) (hb : SortedFields b)
    (h : ∀ key, a.lookup key = b.lookup key) : a = b := by
  have hnodup : ∀ {l : List (String × Json σ)}, SortedFields l → l.Nodup := by
    intro l hl
    rw [List.nodup_iff_pairwise_ne]
    apply hl.imp
    intro x y hlt heq
    exact String.lt_irrefl _ (heq ▸ hlt)
  have hperm : a.Perm b := by
    rw [List.perm_ext_iff_of_nodup (hnodup ha) (hnodup hb)]
    intro kv
    rw [show kv = (kv.1, kv.2) from rfl, ha.mem_iff, hb.mem_iff, h]
  apply hperm.eq_of_pairwise _ ha hb
  intro x y _ _ hxy hyx
  exact absurd (String.lt_trans hxy hyx) (String.lt_irrefl _)

/-! ### Assignments in a loop -/

section Loop

variable {ι : Type} (l : List ι) (key : ι → String) (value : ι → Json σ)

theorem SortedFields.foldl_setField {fields : List (String × Json σ)} (h : SortedFields fields) :
    SortedFields (l.foldl (fun fields i => Json.setField (key i) (value i) fields) fields) := by
  induction l generalizing fields with
  | nil => exact h
  | cons i l ih => exact ih (h.setField (key i) (value i))

/-- The last assignment to a field decides on its value. -/
theorem lookup_foldl_setField_eq (fields : List (String × Json σ)) (k : String) :
    (l.foldl (fun fields i => setField (key i) (value i) fields) fields).lookup k =
      ((l.filter fun i => key i == k).getLast?.map value).or (fields.lookup k) := by
  induction l generalizing fields with
  | nil => rfl
  | cons i l ih =>
    rw [List.foldl_cons, ih, List.filter_cons]
    by_cases hk : key i = k
    · rw [if_pos (beq_iff_eq.mpr hk), ← hk, lookup_setField_self, List.getLast?_cons]
      cases (l.filter fun j => key j == key i).getLast? with
      | none => rfl
      | some j => rfl
    · rw [if_neg (by simpa using hk), lookup_setField_of_ne (Ne.symm hk)]

theorem lookup_foldl_setField {fields : List (String × Json σ)} {k : String} {v : Json σ}
    (h : (l.foldl (fun fields i => setField (key i) (value i) fields) fields).lookup k = some v) :
    (∃ i ∈ l, key i = k ∧ value i = v) ∨ (∀ i ∈ l, key i ≠ k) ∧ fields.lookup k = some v := by
  rw [lookup_foldl_setField_eq] at h
  cases hlast : (l.filter fun i => key i == k).getLast? with
  | some i =>
    rw [hlast] at h
    obtain ⟨hi, hk⟩ := List.mem_filter.mp (List.mem_of_getLast? hlast)
    exact .inl ⟨i, hi, eq_of_beq hk, Option.some.inj h⟩
  | none =>
    rw [hlast] at h
    have hnil := List.getLast?_eq_none_iff.mp hlast
    exact .inr ⟨fun i hi hk => List.filter_eq_nil_iff.mp hnil i hi (beq_iff_eq.mpr hk), h⟩

theorem lookup_foldl_setField_none {fields : List (String × Json σ)} {k : String}
    (h : (l.foldl (fun fields i => setField (key i) (value i) fields) fields).lookup k = none) :
    (∀ i ∈ l, key i ≠ k) ∧ fields.lookup k = none := by
  rw [lookup_foldl_setField_eq, Option.or_eq_none_iff, Option.map_eq_none_iff,
    List.getLast?_eq_none_iff, List.filter_eq_nil_iff] at h
  exact ⟨fun i hi hk => h.1 i hi (beq_iff_eq.mpr hk), h.2⟩

theorem exists_lookup_foldl_setField (fields : List (String × Json σ)) {i : ι} (hi : i ∈ l) :
    ∃ j ∈ l, key j = key i ∧
      (l.foldl (fun fields i => setField (key i) (value i) fields) fields).lookup (key i) =
        some (value j) := by
  cases h : (l.foldl (fun fields i => setField (key i) (value i) fields) fields).lookup (key i) with
  | none => exact absurd rfl ((lookup_foldl_setField_none l key value h).1 i hi)
  | some v =>
    cases lookup_foldl_setField l key value h with
    | inl hl =>
      obtain ⟨j, hj, hk, hv⟩ := hl
      exact ⟨j, hj, hk, by rw [hv]⟩
    | inr hr => exact absurd rfl (hr.1 i hi)

end Loop

/-- The value of a field, if the value is an object that has it. -/
def field? (key : String) : Json σ → Option (Json σ)
  | .object fields => fields.lookup key
  | _ => none

@[simp] theorem field?_object (key : String) (fields : List (String × Json σ)) :
    (object fields).field? key = fields.lookup key := rfl

/-- `contains(key)`. -/
def contains (json : Json σ) (key : String) : Bool := (json.field? key).isSome

/-- `operator[]` of a constant value. -/
def field (json : Json σ) (key : String) : Except JsonError (Json σ) :=
  match json.field? key with
  | some v => .ok v
  | none => .error .missing

/-- `operator[]` of a value that is not constant: a field that is missing becomes null. -/
def entry : Json σ → String → Except JsonError (Json σ)
  | .object fields, key => .ok ((fields.lookup key).getD .null)
  | .null, _ => .ok .null
  | _, _ => .error .type

/-- `get<std::string>()`. -/
def getString : Json σ → Except JsonError σ
  | .string s => .ok s
  | _ => .error .type

/-- `get<int>()` and `get<unsigned>()`, before the conversion to the width. -/
def getInt : Json σ → Except JsonError ℤ
  | .number n => .ok n
  | .bool b => .ok b.toNat
  | _ => .error .type

/-- `get` of a type with 64 bits, which takes no boolean. -/
def getInt64 : Json σ → Except JsonError ℤ
  | .number n => .ok n
  | _ => .error .type

/-- What an iterator over the value runs over. -/
def items : Json σ → List (Json σ)
  | .null => []
  | .array xs => xs
  | .object fields => fields.map Prod.snd
  | json => [json]

end Json

end TmkDcl
