import TmkDcl.SharedMemory
import Mathlib.Algebra.Order.Ring.Int

/-!
# Modules of a pipeline (pipeline_module.c, pipeline_module_description.h)

`pipeline_module_add` appends the modules to `pl->modules_list` in the order of
the description and picks the thread method of each; `pipeline_modules_update`
then links `->next` by looking the next id up in the list. A module is named by
its place in the list. The list order need not be the order of the links:
`Chain` says that the links visit every module once, from the single
`source_thread` over `process_thread`s to the single `finalization_thread`.
-/

namespace TmkDcl.Pipeline

/-- `enum MT_TYPE` (`pipeline_module_description.h:13-18`). -/
inductive MtType where
  | undefined
  | first
  | middle
  | last
  deriving DecidableEq, Repr

/-- `enum MT_MODE` (`pipeline_module_description.h:8-11`). -/
inductive MtMode where
  | internal
  | external
  deriving DecidableEq, Repr

/-- `struct pipeline_module_description`; `argv` is what `process_start` gets. -/
structure ModuleDescription where
  id : ℤ
  type : MtType
  mode : MtMode
  next : ℤ
  deriving DecidableEq, Repr

/-- The values of `module->thread_method`. -/
inductive ThreadMethod where
  | initialThread
  | sourceThread
  | processThread
  | finalizationThread
  deriving DecidableEq, Repr

/-- The choice of `pipeline_module_add` (`pipeline_module.c:66-83`); an
unsupported type leaves the zeroed pointer. -/
def threadMethod (mdesc : ModuleDescription) : Option ThreadMethod :=
  match mdesc.type with
  | .first => if mdesc.mode = .external then some .sourceThread else some .initialThread
  | .last => some .finalizationThread
  | .middle => some .processThread
  | .undefined => none

/-- `pipeline_module_get` (`pipeline_module.c:36-52`): the first module with the id. -/
def pipelineModuleGet (id : ℤ) (modules : List ModuleDescription) : Option ℕ :=
  modules.findIdx? fun mdesc => mdesc.id = id

/-- What a pipeline is started with: its modules in list order, the memory map,
what `process_start` returns in each module's thread (`none` stands for -1),
and whether the module's child passes an action to `pipeline_process`. A chunk
has at least the byte that `finalization_thread` clears, and `data_cnt` is an `int`. -/
structure Config where
  modules : List ModuleDescription
  map : MemoryMap
  dataSize_pos : 0 < map.dataSize
  dataCnt_lt : map.dataCnt < 2 ^ 31
  processStart : ℕ → Option ℕ
  action : ℕ → Bool

namespace Config

/-- `pl->modules_cnt`. -/
def modulesCnt (cfg : Config) : ℕ := cfg.modules.length

/-- `module->thread_method`. -/
def method (cfg : Config) (i : ℕ) : Option ThreadMethod := cfg.modules[i]?.bind threadMethod

/-- `module->next` as `pipeline_modules_update` sets it (`pipeline_module.c:115`). -/
def next (cfg : Config) (i : ℕ) : Option ℕ :=
  cfg.modules[i]?.bind fun mdesc => pipelineModuleGet mdesc.next cfg.modules

theorem lt_of_next {cfg : Config} {i j : ℕ} (h : cfg.next i = some j) : i < cfg.modulesCnt := by
  by_contra hn
  simp [next, List.getElem?_eq_none (Nat.le_of_not_lt hn)] at h

end Config

/-- The thread method of the place `p` of a chain of `len` modules. -/
def chainMethod (len p : ℕ) : ThreadMethod :=
  if p = 0 then .sourceThread
  else if p + 1 = len then .finalizationThread
  else .processThread

/-- The links of the modules form a source-headed chain: `path` lists the
places in `modules_list` in the order in which `->next` visits them. -/
structure Chain (cfg : Config) where
  path : List ℕ
  nodup : path.Nodup
  mem_path : ∀ i, i ∈ path ↔ i < cfg.modulesCnt
  two_le : 2 ≤ path.length
  next_eq : ∀ p i, path[p]? = some i → cfg.next i = path[p + 1]?
  method_eq : ∀ p i, path[p]? = some i → cfg.method i = some (chainMethod path.length p)

namespace Chain

variable {cfg : Config} (ch : Chain cfg) {i j k : ℕ}

/-- The place of a module along the links. -/
def pos (i : ℕ) : ℕ := ch.path.idxOf i

/-- The place of the `source_thread` in the list. -/
def head : ℕ := ch.path.getD 0 0

theorem path_pos (hi : i < cfg.modulesCnt) : ch.path[ch.pos i]? = some i := by
  have hm : i ∈ ch.path := (ch.mem_path i).mpr hi
  have hl : ch.path.idxOf i < ch.path.length := List.idxOf_lt_length_of_mem hm
  rw [pos, List.getElem?_eq_getElem hl, List.getElem_idxOf]

theorem pos_of_path {p : ℕ} (h : ch.path[p]? = some i) : ch.pos i = p := by
  obtain ⟨hp, he⟩ := List.getElem?_eq_some_iff.mp h
  rw [pos, ← he]
  exact ch.nodup.idxOf_getElem p hp

theorem lt_of_path {p : ℕ} (h : ch.path[p]? = some i) : i < cfg.modulesCnt :=
  (ch.mem_path i).mp (List.mem_of_getElem? h)

theorem path_next (h : cfg.next i = some j) : ch.path[ch.pos i + 1]? = some j := by
  rw [← ch.next_eq _ _ (ch.path_pos (Config.lt_of_next h)), h]

include ch in
theorem next_lt (h : cfg.next i = some j) : j < cfg.modulesCnt := ch.lt_of_path (ch.path_next h)

theorem pos_next (h : cfg.next i = some j) : ch.pos j = ch.pos i + 1 :=
  ch.pos_of_path (ch.path_next h)

theorem pos_inj (hi : i < cfg.modulesCnt) (hk : k < cfg.modulesCnt) (h : ch.pos i = ch.pos k) :
    i = k := by
  have h1 := ch.path_pos hi
  rw [h, ch.path_pos hk] at h1
  exact (Option.some_inj.mp h1).symm

include ch in
theorem next_inj (hi : cfg.next i = some j) (hk : cfg.next k = some j) : i = k := by
  refine ch.pos_inj (Config.lt_of_next hi) (Config.lt_of_next hk) ?_
  have h1 := ch.pos_next hi
  have h2 := ch.pos_next hk
  omega

include ch in
theorem next_ne_self (h : cfg.next i = some j) : i ≠ j := by
  rintro rfl
  have := ch.pos_next h
  omega

theorem path_head : ch.path[0]? = some ch.head := by
  have h : 0 < ch.path.length := by have := ch.two_le; omega
  rw [head, List.getD_eq_getElem?_getD, List.getElem?_eq_getElem h, Option.getD_some]

theorem head_lt : ch.head < cfg.modulesCnt := ch.lt_of_path ch.path_head

theorem pos_head : ch.pos ch.head = 0 := ch.pos_of_path ch.path_head

theorem next_ne_head (h : cfg.next i = some j) : j ≠ ch.head := by
  rintro rfl
  have := ch.pos_next h
  rw [ch.pos_head] at this
  omega

theorem eq_head (hi : i < cfg.modulesCnt) (hp : ch.pos i = 0) : i = ch.head :=
  ch.pos_inj hi ch.head_lt (hp.trans ch.pos_head.symm)

theorem exists_pred (hj : j < cfg.modulesCnt) (hne : j ≠ ch.head) : ∃ i, cfg.next i = some j := by
  have hp : ch.pos j ≠ 0 := fun h => hne (ch.eq_head hj h)
  obtain ⟨p, hp⟩ := Nat.exists_eq_succ_of_ne_zero hp
  have hj' := ch.path_pos hj
  rw [hp] at hj'
  have hlt : p < ch.path.length := by
    have := (List.getElem?_eq_some_iff.mp hj').1
    omega
  refine ⟨ch.path[p], ?_⟩
  rw [ch.next_eq p _ (List.getElem?_eq_getElem hlt)]
  exact hj'

theorem method_pos (hi : i < cfg.modulesCnt) :
    cfg.method i = some (chainMethod ch.path.length (ch.pos i)) :=
  ch.method_eq _ _ (ch.path_pos hi)

theorem pos_lt (hi : i < cfg.modulesCnt) : ch.pos i < ch.path.length :=
  (List.getElem?_eq_some_iff.mp (ch.path_pos hi)).1

theorem method_head : cfg.method ch.head = some .sourceThread := by
  rw [ch.method_pos ch.head_lt, ch.pos_head]
  rfl

theorem length_path : ch.path.length = cfg.modulesCnt := by
  have hperm : ch.path.Perm (List.range cfg.modulesCnt) :=
    (List.perm_ext_iff_of_nodup ch.nodup List.nodup_range).mpr fun i => by
      rw [ch.mem_path, List.mem_range]
  simpa using hperm.length_eq

theorem source_iff (hi : i < cfg.modulesCnt) :
    cfg.method i = some .sourceThread ↔ i = ch.head := by
  refine ⟨fun h => ?_, fun h => h ▸ ch.method_head⟩
  rw [ch.method_pos hi, chainMethod] at h
  refine ch.eq_head hi ?_
  by_contra hp
  rw [if_neg hp] at h
  split at h <;> simp at h

theorem pos_final (hi : i < cfg.modulesCnt) (hm : cfg.method i = some .finalizationThread) :
    ch.pos i + 1 = ch.path.length := by
  rw [ch.method_pos hi, chainMethod] at hm
  split at hm
  · simp at hm
  · split at hm
    · assumption
    · simp at hm

theorem pos_lt_final (hi : i < cfg.modulesCnt) (hm : cfg.method i = some .finalizationThread)
    (hk : k < cfg.modulesCnt) (hne : k ≠ i) : ch.pos k < ch.pos i := by
  have hlast := ch.pos_final hi hm
  have hlt := ch.pos_lt hk
  have hpos : ch.pos k ≠ ch.pos i := fun he => hne (ch.pos_inj hk hi he)
  omega

include ch in
theorem next_none_iff (hi : i < cfg.modulesCnt) :
    cfg.next i = none ↔ cfg.method i = some .finalizationThread := by
  have hlt := ch.pos_lt hi
  have h2 := ch.two_le
  rw [ch.next_eq _ _ (ch.path_pos hi), ch.method_pos hi, List.getElem?_eq_none_iff, chainMethod]
  split
  · simp
    omega
  · split <;> simp <;> omega

/-- Induction along the links, from the head on. -/
theorem induction_down {P : ℕ → Prop} (h0 : P ch.head)
    (h : ∀ i j, cfg.next i = some j → P i → P j) (hi : i < cfg.modulesCnt) : P i := by
  induction hp : ch.pos i generalizing i with
  | zero => exact ch.eq_head hi hp ▸ h0
  | succ p ih =>
    have hne : i ≠ ch.head := by
      rintro rfl
      rw [ch.pos_head] at hp
      omega
    obtain ⟨k, hn⟩ := ch.exists_pred hi hne
    have hpos := ch.pos_next hn
    exact h k i hn (ih (Config.lt_of_next hn) (by omega))

/-- On the way from `i` to `k` the links leave a set that has `i` and not `k`. -/
theorem exists_crossing {P : ℕ → Prop} (hi : i < cfg.modulesCnt) (hk : k < cfg.modulesCnt)
    (hlt : ch.pos i < ch.pos k) (hP : P i) (hn : ¬ P k) :
    ∃ z j, cfg.next z = some j ∧ P z ∧ ¬ P j ∧ ch.pos j ≤ ch.pos k := by
  induction hp : ch.pos k - ch.pos i generalizing i with
  | zero => omega
  | succ n ih =>
    obtain ⟨j, hj⟩ := Option.ne_none_iff_exists'.mp fun hnone => by
      have := ch.pos_final hi ((ch.next_none_iff hi).mp hnone)
      have := ch.pos_lt hk
      omega
    have hpos := ch.pos_next hj
    by_cases hPj : P j
    · have hne : j ≠ k := by
        rintro rfl
        exact hn hPj
      have hpne : ch.pos j ≠ ch.pos k := fun he => hne (ch.pos_inj (ch.next_lt hj) hk he)
      exact ih (ch.next_lt hj) (by omega) hPj (by omega)
    · exact ⟨i, j, hj, hP, hPj, by omega⟩

include ch in
theorem method_between (hi : cfg.next i = some j) (hj : cfg.next j = some k) :
    cfg.method j = some .processThread := by
  have hp := ch.pos_next hi
  have hp' := ch.pos_next hj
  have hlt := ch.pos_lt (ch.next_lt hj)
  rw [ch.method_pos (ch.next_lt hi), chainMethod, if_neg (by omega), if_neg (by omega)]

include ch in
theorem method_cases (hi : i < cfg.modulesCnt) : cfg.method i = some .sourceThread ∨
    cfg.method i = some .processThread ∨ cfg.method i = some .finalizationThread := by
  rw [ch.method_pos hi, chainMethod]
  split
  · exact Or.inl rfl
  · split
    · exact Or.inr (Or.inr rfl)
    · exact Or.inr (Or.inl rfl)

end Chain

theorem two_lt_int : 2 < 2 ^ 31 := by decide

/-- Three modules in the order of their links, over two slots of four bytes. -/
def threeModules (processStart : ℕ → Option ℕ) (action : ℕ → Bool) : Config where
  modules := [⟨1, .first, .external, 2⟩, ⟨2, .middle, .external, 3⟩, ⟨3, .last, .internal, -1⟩]
  map := ⟨3, 64, 2, 4⟩
  dataSize_pos := by decide
  dataCnt_lt := two_lt_int
  processStart := processStart
  action := action

theorem mem_threeModules (processStart : ℕ → Option ℕ) (action : ℕ → Bool) (i : ℕ) :
    i ∈ [0, 1, 2] ↔ i < (threeModules processStart action).modulesCnt := by
  simp only [List.mem_cons, List.not_mem_nil, or_false, threeModules, Config.modulesCnt,
    List.length_cons, List.length_nil]
  omega

def threeModules.chain (processStart : ℕ → Option ℕ) (action : ℕ → Bool) :
    Chain (threeModules processStart action) where
  path := [0, 1, 2]
  nodup := by decide
  mem_path := mem_threeModules processStart action
  two_le := by decide
  next_eq p i h := by
    match p, h with
    | 0, h | 1, h | 2, h =>
      cases h
      rfl
  method_eq p i h := by
    match p, h with
    | 0, h | 1, h | 2, h =>
      cases h
      rfl

theorem int_max_lt : 2 ^ 31 - 1 < 2 ^ 31 := by decide

/-- A source and the last module over a ring of `INT_MAX` slots. -/
def widestRing : Config where
  modules := [⟨1, .first, .external, 2⟩, ⟨2, .last, .internal, -1⟩]
  map := ⟨2, 64, 2 ^ 31 - 1, 4⟩
  dataSize_pos := by decide
  dataCnt_lt := int_max_lt
  processStart := some
  action _ := true

theorem mem_widestRing (i : ℕ) : i ∈ [0, 1] ↔ i < widestRing.modulesCnt := by
  simp only [List.mem_cons, List.not_mem_nil, or_false, widestRing, Config.modulesCnt,
    List.length_cons, List.length_nil]
  omega

def widestRing.chain : Chain widestRing where
  path := [0, 1]
  nodup := by decide
  mem_path := mem_widestRing
  two_le := by decide
  next_eq p i h := by
    match p, h with
    | 0, h | 1, h =>
      cases h
      rfl
  method_eq p i h := by
    match p, h with
    | 0, h | 1, h =>
      cases h
      rfl

end TmkDcl.Pipeline
