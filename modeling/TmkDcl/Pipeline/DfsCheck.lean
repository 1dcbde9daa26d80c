import Mathlib.Data.List.GetD
import TmkDcl.Pipeline.ModulesConfiguration

/-!
# The calls of dfs_check (pipeline/config/src/config.cpp)

`dfs_check` with the map that grows where it is read, the number of calls and the entries of `was`
and `modules` that they touch. A call that goes on has marked one more module, so that `n + 1` calls
are enough, and the links of the modules decide the result.
-/

namespace TmkDcl.Pipeline

/-- A `std::map<int, int>`. -/
abbrev IdxMap := ℤ → Option ℤ

/-- `map[key]`, which inserts 0 for a key that is not there. -/
def IdxMap.index (map : IdxMap) (key : ℤ) : ℤ × IdxMap :=
  match map key with
  | some idx => (idx, map)
  | none => (0, Function.update map key (some 0))

/-- The loop that fills `idx_map` (`config.cpp:138-141`). -/
def fillIdxMap (modules : List ModuleT) : IdxMap :=
  modules.zipIdx.foldl (fun map m => Function.update map m.1.id (some (m.2 : ℤ))) fun _ => none

/-- The result of a call with the calls made, itself included, and the entries of `was` and of
`modules` that they touch. -/
structure Checked where
  result : ℤ
  calls : ℕ
  was : List ℤ
  modules : List ℤ
  deriving DecidableEq

/-- The loop over `was` from entry `i` on, for `k` more entries (`config.cpp:30-34`): its result and
the entries that it reads. -/
def scanWas (was : List Bool) : ℕ → ℕ → ℤ × List ℤ
  | 0, _ => (0, [])
  | k + 1, i =>
    if was.getD i false = false then (-1, [(i : ℤ)])
    else ((scanWas was k (i + 1)).1, i :: (scanWas was k (i + 1)).2)

/-- A call of `dfs_check` (`config.cpp:20-38`). Its range test lets -1 pass; what it reads at an
entry out of range is not defined, and the entry is listed. -/
def dfsCheckCall (modules : List ModuleT) (size : ℤ) : ℕ → IdxMap → List Bool → ℤ → Option Checked
  | 0, _, _, _ => none
  | fuel + 1, map, was, now =>
    if now < -1 ∨ now ≥ size then some ⟨-1, 1, [], []⟩
    else if was.getD now.toNat false then some ⟨-1, 1, [now], []⟩
    else
      let was := was.set now.toNat true
      let next := (modules[now.toNat]?.map ModuleT.next).getD (-1)
      if next = -1 then
        some ⟨(scanWas was size.toNat 0).1, 1, now :: now :: (scanWas was size.toNat 0).2, [now]⟩
      else
        (dfsCheckCall modules size fuel (map.index next).2 was (map.index next).1).map fun o =>
          ⟨o.result, o.calls + 1, now :: now :: o.was, now :: now :: o.modules⟩

/-! ### The map -/

section Map

variable {modules : List ModuleT} {map : IdxMap}

/-- What the map gives now and whenever it has grown. -/
def IdxMap.Agrees (map : IdxMap) (modules : List ModuleT) : Prop :=
  ∀ id, (map id).getD 0 = idxMap modules id

theorem IdxMap.Agrees.index (h : map.Agrees modules) (key : ℤ) :
    (map.index key).1 = idxMap modules key ∧ (map.index key).2.Agrees modules := by
  have hkey := h key
  unfold IdxMap.index
  split
  · rename_i idx hidx
    rw [hidx] at hkey
    exact ⟨hkey, h⟩
  · rename_i hnone
    rw [hnone] at hkey
    refine ⟨hkey, fun id => ?_⟩
    by_cases hid : id = key
    · simp only [hid, Function.update_self]
      exact hkey
    · simp only [Function.update_of_ne hid]
      exact h id

theorem fillIdxMap_concat (m : ModuleT) : fillIdxMap (modules ++ [m]) =
    Function.update (fillIdxMap modules) m.id (some (modules.length : ℤ)) := by
  rw [fillIdxMap, List.zipIdx_append, List.foldl_append]
  simp only [Nat.zero_add, List.zipIdx_cons, List.zipIdx_nil, List.foldl_cons, List.foldl_nil,
    fillIdxMap]

theorem fillIdxMap_agrees (modules : List ModuleT) : (fillIdxMap modules).Agrees modules := by
  induction modules using List.reverseRecOn with
  | nil => exact fun _ => rfl
  | append_singleton modules m ih =>
    intro id
    rw [fillIdxMap_concat, idxMap_concat]
    by_cases hid : id = m.id
    · rw [hid, Function.update_self, if_pos rfl]
      rfl
    · rw [Function.update_of_ne hid, if_neg hid]
      exact ih id

theorem idxMap_lt (h : modules ≠ []) (id : ℤ) : idxMap modules id < modules.length := by
  rcases idxMap_spec modules id with ⟨h0, -⟩ | ⟨hat, -⟩
  · rw [h0]
    exact List.length_pos_iff.mpr h
  · obtain ⟨m, hm, -⟩ := Option.map_eq_some_iff.mp hat
    exact (List.getElem?_eq_some_iff.mp hm).1

end Map

section Calls

variable {modules : List ModuleT} {map : IdxMap} {was : List Bool} {now k i fuel : ℕ}

theorem scanWas_fst (h : i + k = was.length) :
    (scanWas was k i).1 = if (was.drop i).all (· = true) then 0 else -1 := by
  induction k generalizing i with
  | zero =>
    rw [List.drop_eq_nil_of_le (by omega)]
    rfl
  | succ k ih =>
    have hi : i < was.length := by omega
    rw [scanWas, List.drop_eq_getElem_cons hi, List.all_cons, ih (by omega),
      List.getD_eq_getElem _ _ hi]
    cases was[i] <;> simp

theorem scanWas_snd {j : ℤ} (hj : j ∈ (scanWas was k i).2) : (i : ℤ) ≤ j ∧ j < (i + k : ℕ) := by
  induction k generalizing i with
  | zero => cases hj
  | succ k ih =>
    rw [scanWas] at hj
    split at hj
    · rw [List.mem_singleton.mp hj]
      omega
    · rcases List.mem_cons.mp hj with rfl | hj
      · omega
      · have hrest := ih hj
        omega

/-- A call on marks `was` is `dfsCheck`; it makes one call for each place that is not marked yet and
one more, and all entries that it touches are in range. -/
structure Call (modules : List ModuleT) (map : IdxMap) (was : List Bool) (now : ℕ) (o : Checked) :
    Prop where
  run : ∀ fuel, was.count false < fuel →
    dfsCheckCall modules modules.length fuel map was now = some o
  result : ∀ fuel, was.count false < fuel → dfsCheck modules fuel was now = some o.result
  calls : o.calls ≤ was.count false + 1
  was : ∀ i ∈ o.was, 0 ≤ i ∧ i < modules.length
  modules : ∀ i ∈ o.modules, 0 ≤ i ∧ i < modules.length

theorem count_set_marked (h : now < was.length) (hw : was.getD now false = false) :
    (was.set now true).count false + 1 = was.count false := by
  rw [List.getD_eq_getElem _ _ h] at hw
  have hpos : 0 < was.count false := List.count_pos_iff.mpr (hw ▸ List.getElem_mem h)
  rw [List.count_set h, hw]
  simp only [BEq.rfl, if_true, Bool.true_beq, Bool.false_eq_true, if_false]
  omega

theorem call_succ (fuel : ℕ) (hnow : now < modules.length) :
    dfsCheckCall modules modules.length (fuel + 1) map was now =
      if was.getD now false then some ⟨-1, 1, [(now : ℤ)], []⟩
      else if modules[now].next = -1 then
        some ⟨(scanWas (was.set now true) modules.length 0).1, 1,
          now :: now :: (scanWas (was.set now true) modules.length 0).2, [(now : ℤ)]⟩
      else
        (dfsCheckCall modules modules.length fuel (map.index modules[now].next).2
          (was.set now true) (map.index modules[now].next).1).map fun o =>
            ⟨o.result, o.calls + 1, now :: now :: o.was, now :: now :: o.modules⟩ := by
  have hrange : ¬ ((now : ℤ) < -1 ∨ (now : ℤ) ≥ modules.length) := by omega
  rw [dfsCheckCall, if_neg hrange]
  simp only [Int.toNat_natCast, List.getElem?_eq_getElem hnow, Option.map_some, Option.getD_some]

theorem dfsCheck_succ (fuel : ℕ) (hnow : now < modules.length) :
    dfsCheck modules (fuel + 1) was now =
      if was.getD now false then some (-1)
      else if modules[now].next = -1 then
        if (was.set now true).all (· = true) then some 0 else some (-1)
      else dfsCheck modules fuel (was.set now true) (idxMap modules modules[now].next) := by
  rw [dfsCheck, List.getElem?_eq_getElem hnow]

theorem forall_now_cons {is : List ℤ} (hnow : now < modules.length)
    (h : ∀ i ∈ is, 0 ≤ i ∧ i < modules.length) :
    ∀ i ∈ (now : ℤ) :: is, 0 ≤ i ∧ i < modules.length :=
  List.forall_mem_cons.mpr ⟨⟨Int.natCast_nonneg now, Int.ofNat_lt.mpr hnow⟩, h⟩

theorem Call.of_succ {o : Checked}
    (hrun : ∀ fuel, was.count false ≤ fuel →
      dfsCheckCall modules modules.length (fuel + 1) map was now = some o)
    (hresult : ∀ fuel, was.count false ≤ fuel →
      dfsCheck modules (fuel + 1) was now = some o.result)
    (hcalls : o.calls ≤ was.count false + 1) (hwas : ∀ i ∈ o.was, 0 ≤ i ∧ i < modules.length)
    (hmodules : ∀ i ∈ o.modules, 0 ≤ i ∧ i < modules.length) : Call modules map was now o := by
  refine ⟨fun fuel hf => ?_, fun fuel hf => ?_, hcalls, hwas, hmodules⟩
  · obtain ⟨fuel, rfl⟩ := Nat.exists_eq_succ_of_ne_zero (Nat.ne_zero_of_lt hf)
    exact hrun fuel (Nat.le_of_lt_succ hf)
  · obtain ⟨fuel, rfl⟩ := Nat.exists_eq_succ_of_ne_zero (Nat.ne_zero_of_lt hf)
    exact hresult fuel (Nat.le_of_lt_succ hf)

theorem Call.marked (hnow : now < modules.length) (hmark : was.getD now false = true) :
    Call modules map was now ⟨-1, 1, [(now : ℤ)], []⟩ := by
  have hnil : ∀ i ∈ ([] : List ℤ), 0 ≤ i ∧ i < modules.length := List.forall_mem_nil _
  refine .of_succ (fun fuel _ => ?_) (fun fuel _ => ?_) (Nat.le_add_left _ _)
    (forall_now_cons hnow hnil) hnil
  · rw [call_succ fuel hnow, if_pos hmark]
  · rw [dfsCheck_succ fuel hnow, if_pos hmark]

theorem Call.last (hnow : now < modules.length) (hlen : was.length = modules.length)
    (hmark : ¬ was.getD now false = true) (hnext : modules[now].next = -1) :
    Call modules map was now ⟨(scanWas (was.set now true) modules.length 0).1, 1,
      now :: now :: (scanWas (was.set now true) modules.length 0).2, [(now : ℤ)]⟩ := by
  have hscan : ∀ i ∈ (scanWas (was.set now true) modules.length 0).2,
      0 ≤ i ∧ i < modules.length := by
    intro i hi
    have hrange := scanWas_snd hi
    omega
  refine .of_succ (fun fuel _ => ?_) (fun fuel _ => ?_) (Nat.le_add_left _ _)
    (forall_now_cons hnow (forall_now_cons hnow hscan))
    (forall_now_cons hnow (List.forall_mem_nil _))
  · rw [call_succ fuel hnow, if_neg hmark, if_pos hnext]
  · rw [dfsCheck_succ fuel hnow, if_neg hmark, if_pos hnext, scanWas_fst (by simp [hlen]),
      List.drop_zero]
    split <;> rfl

/-- A call that goes on has marked one more place. -/
theorem Call.step {o : Checked} (hmap : map.Agrees modules) (hlen : was.length = modules.length)
    (hnow : now < modules.length) (hmark : ¬ was.getD now false = true)
    (hnext : ¬ modules[now].next = -1)
    (ho : Call modules (map.index modules[now].next).2 (was.set now true)
      (idxMap modules modules[now].next) o) :
    Call modules map was now
      ⟨o.result, o.calls + 1, now :: now :: o.was, now :: now :: o.modules⟩ := by
  have hcount := count_set_marked (hlen ▸ hnow) (eq_false_of_ne_true hmark)
  have hcalls := ho.calls
  refine .of_succ (fun fuel hf => ?_) (fun fuel hf => ?_) ?_
    (forall_now_cons hnow (forall_now_cons hnow ho.was))
    (forall_now_cons hnow (forall_now_cons hnow ho.modules))
  · rw [call_succ fuel hnow, if_neg hmark, if_neg hnext, (hmap.index _).1,
      ho.run fuel (by omega), Option.map_some]
  · rw [dfsCheck_succ fuel hnow, if_neg hmark, if_neg hnext, ho.result fuel (by omega)]
  · simp only
    omega

theorem exists_call (hmap : map.Agrees modules) (hlen : was.length = modules.length)
    (hnow : now < modules.length) : ∃ o, Call modules map was now o := by
  induction hk : was.count false using Nat.strongRecOn generalizing map was now with
  | _ k ih =>
    by_cases hmark : was.getD now false = true
    · exact ⟨_, .marked hnow hmark⟩
    by_cases hnext : modules[now].next = -1
    · exact ⟨_, .last hnow hlen hmark hnext⟩
    have hcount := count_set_marked (hlen ▸ hnow) (eq_false_of_ne_true hmark)
    have hless : (was.set now true).count false < k := by omega
    obtain ⟨o, ho⟩ := ih _ hless (hmap.index modules[now].next).2
      (by rw [List.length_set, hlen]) (idxMap_lt (List.ne_nil_of_length_pos (by omega)) _) rfl
    exact ⟨_, .step hmap hlen hnow hmark hnext ho⟩

end Calls

/-! ### The result -/

section Result

variable {modules : List ModuleT} {was : List Bool} {now fuel : ℕ} {path : List ℕ}

/-- A walk over all places that are not marked is checked to its end. -/
theorem dfsCheck_of_path (hlen : was.length = modules.length) (hhead : path[0]? = some now)
    (hstep : ∀ p i, path[p]? = some i → dfsNext modules i = path[p + 1]?) (hnodup : path.Nodup)
    (hmem : ∀ i ∈ path, i < modules.length ∧ was.getD i false = false)
    (hcover : ∀ i < modules.length, was.getD i false = true ∨ i ∈ path)
    (hf : path.length ≤ fuel) : dfsCheck modules fuel was now = some 0 := by
  induction path generalizing was now fuel with
  | nil => cases hhead
  | cons a rest ih =>
    obtain rfl : a = now := Option.some.inj hhead
    obtain ⟨fuel, rfl⟩ := Nat.exists_eq_succ_of_ne_zero (Nat.ne_zero_of_lt hf)
    obtain ⟨hnow, hmark⟩ := hmem a List.mem_cons_self
    obtain ⟨hnot, hnodup⟩ := List.nodup_cons.mp hnodup
    have hnext := hstep 0 a rfl
    rw [dfsNext_eq (List.getElem?_eq_getElem hnow)] at hnext
    have hset : ∀ i, i ≠ a → (was.set a true).getD i false = was.getD i false := by
      intro i hi
      rw [List.getD_eq_getElem?_getD, List.getD_eq_getElem?_getD, List.getElem?_set_ne hi.symm]
    have hcover' : ∀ i < modules.length, (was.set a true).getD i false = true ∨ i ∈ rest := by
      intro i hi
      by_cases hia : i = a
      · subst hia
        exact .inl (by simp [hlen, hi])
      · rw [hset i hia]
        exact (hcover i hi).imp_right fun h => (List.mem_cons.mp h).resolve_left hia
    rw [dfsCheck_succ fuel hnow, if_neg (by rw [hmark]; exact Bool.false_ne_true)]
    cases rest with
    | nil =>
      have hlast : modules[a].next = -1 := by
        by_contra hne
        rw [if_neg hne] at hnext
        cases hnext
      rw [if_pos hlast, if_pos]
      refine List.all_eq_true.mpr fun b hb => ?_
      obtain ⟨i, hi, rfl⟩ := List.getElem_of_mem hb
      rw [List.length_set, hlen] at hi
      have hmarked := (hcover' i hi).resolve_right List.not_mem_nil
      rw [List.getD_eq_getElem _ _ (by rw [List.length_set, hlen]; exact hi)] at hmarked
      exact decide_eq_true hmarked
    | cons b rest =>
      have hgo : ¬ modules[a].next = -1 := by
        intro he
        rw [if_pos he] at hnext
        cases hnext
      rw [if_neg hgo] at hnext
      have hb : idxMap modules modules[a].next = b := Option.some.inj hnext
      rw [if_neg hgo, hb]
      refine ih (by rw [List.length_set, hlen]) rfl (fun p i hp => hstep (p + 1) i hp) hnodup
        (fun i hi => ?_) hcover' (Nat.le_of_succ_le_succ hf)
      obtain ⟨hlt, hfalse⟩ := hmem i (List.mem_cons_of_mem _ hi)
      exact ⟨hlt, (hset i fun he => hnot (he ▸ hi)).trans hfalse⟩

/-- With no mark yet the check succeeds on the walks that visit every module once. -/
theorem dfsCheck_eq_zero_iff (hf : modules.length < fuel) :
    dfsCheck modules fuel (List.replicate modules.length false) now = some 0 ↔
      ∃ path, Visits (dfsNext modules) modules.length now path := by
  refine ⟨dfsCheck_visits, fun ⟨path, h⟩ => ?_⟩
  refine dfsCheck_of_path List.length_replicate h.head h.next h.nodup (fun i hi => ?_)
    (fun i hi => .inr ((h.mem i).mpr hi)) (by rw [h.length_eq]; omega)
  exact ⟨(h.mem i).mp hi, by simp⟩

end Result

/-- `dfs_check` from any module, on the map that has been filled and with no mark: it returns after
at most `n + 1` calls, whatever the ids and links are, touches entries in range only, and returns 0
exactly if the walk along the links visits every module once and ends at one without a next. -/
theorem dfsCheckCall_decides (modules : List ModuleT) (start : ℕ) (h : start < modules.length) :
    ∃ o : Checked,
      (∀ fuel, modules.length < fuel → dfsCheckCall modules modules.length fuel
        (fillIdxMap modules) (List.replicate modules.length false) start = some o) ∧
      o.calls ≤ modules.length + 1 ∧
      (∀ i ∈ o.was ++ o.modules, 0 ≤ i ∧ i < modules.length) ∧
      (o.result = 0 ↔ ∃ path, Visits (dfsNext modules) modules.length start path) := by
  have hlen : (List.replicate modules.length false).length = modules.length := List.length_replicate
  obtain ⟨o, ho⟩ := exists_call (fillIdxMap_agrees modules) hlen h
  have hcount : (List.replicate modules.length false).count false = modules.length :=
    List.count_replicate_self
  have hresult := ho.result (modules.length + 1) (by omega)
  refine ⟨o, fun fuel hf => ho.run fuel (by omega), hcount ▸ ho.calls, fun i hi => ?_, ?_⟩
  · exact (List.mem_append.mp hi).elim (ho.was i) (ho.modules i)
  · rw [← dfsCheck_eq_zero_iff (Nat.lt_succ_self _), hresult, Option.some.injEq]

/-- Three modules, one of which is named by no other. -/
theorem dfsCheckCall_decides_unreached :
    ∃ o : Checked, dfsCheckCall [⟨5, .first, 7, []⟩, ⟨6, .middle, 7, []⟩, ⟨7, .last, -1, []⟩] 3 4
        (fillIdxMap [⟨5, .first, 7, []⟩, ⟨6, .middle, 7, []⟩, ⟨7, .last, -1, []⟩])
        [false, false, false] 0 = some o ∧ o.calls ≤ 4 := by
  obtain ⟨o, hrun, hcalls, -⟩ := dfsCheckCall_decides
    [⟨5, .first, 7, []⟩, ⟨6, .middle, 7, []⟩, ⟨7, .last, -1, []⟩] 0 (by decide)
  exact ⟨o, hrun 4 (by decide), hcalls⟩

end TmkDcl.Pipeline
