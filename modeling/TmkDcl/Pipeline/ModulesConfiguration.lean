import Mathlib.Algebra.Group.Nat.Defs
import Mathlib.Data.List.Induction
import TmkDcl.Walk
import TmkDcl.Pipeline.Module

/-!
# Configuration of the modules (pipeline/config/src/config.cpp, pipeline_module.c)

`read_modules_configuration` reads the modules from a JSON document and, with
`CONFIG_EXTRA_CHECK`, walks their links through a map from ids to places; `pipeline_modules_update`
links them by a search for the first module with the id. The map has the last module with an id,
and place 0 for an id that no module has.
-/

namespace TmkDcl.Pipeline

/-- A `nlohmann::json` value; a floating-point number by its integer part, and the fields of an
object in the order of its map. -/
inductive Json where
  | null
  | bool (b : Bool)
  | number (n : ℤ)
  | string (s : String)
  | array (items : List Json)
  | object (fields : List (String × Json))

/-- How `read_modules_configuration` ends without modules: it returns -1, an exception of the JSON
library passes its handler (they are no `std::logic_error`), or `params[-1]` is read. -/
inductive Failure where
  | rejected
  | jsonException
  | outOfBounds
  deriving DecidableEq

namespace Json

/-- `operator[]`; a missing field becomes `null`, and `null` an object. -/
def field (key : String) : Json → Except Failure Json
  | .object fields => .ok ((fields.lookup key).getD .null)
  | .null => .ok .null
  | _ => .error .jsonException

/-- `get<int>`. -/
def getInt : Json → Except Failure ℤ
  | .bool b => .ok (if b then 1 else 0)
  | .number n => .ok (n.bmod (2 ^ 32))
  | _ => .error .jsonException

/-- `get<std::string>`. -/
def getString : Json → Except Failure String
  | .string s => .ok s
  | _ => .error .jsonException

/-- `get<std::vector<std::string>>`. -/
def getStrings : Json → Except Failure (List String)
  | .array items => items.mapM getString
  | _ => .error .jsonException

def isNull : Json → Bool
  | .null => true
  | _ => false

/-- `== "..."`. -/
def isString (s : String) : Json → Bool
  | .string t => t == s
  | _ => false

def isObject : Json → Bool
  | .object _ => true
  | _ => false

/-- What the iterator runs over; a scalar is its own only item. -/
def items : Json → List Json
  | .null => []
  | .array items => items
  | .object fields => fields.map Prod.snd
  | json => [json]

end Json

/-- `module_t` as it is filled; `mode` is not. -/
structure ModuleT where
  id : ℤ
  type : MtType
  next : ℤ
  argv : List String
  deriving DecidableEq

/-- The locals `modules`, `first` and `null_name_exist`. -/
structure ReadState where
  modules : List ModuleT
  first : Option ℕ
  nullNameExist : Bool
  deriving DecidableEq

/-- `throw_wrong_type_error(it.key(), type, ..)`: only the iterator of an object has a key, and only
a string is one (`config.cpp:43-45`). -/
def throwWrongTypeError (document type : Json) : Failure :=
  match document, type with
  | .object _, .string _ => .rejected
  | _, _ => .jsonException

/-- `argv` of a module (`config.cpp:77-95`); without a name the loop over the parameters starts
at `params[-1]`. -/
def readArgv (name : Json) (params : List String) : Except Failure (List String) :=
  if name.isNull then if params = [] then .ok [] else .error .outOfBounds
  else do
    let name ← name.getString
    return name :: params

/-- `next` and `type` of a module that is not the first (`config.cpp:96-108`). -/
def readNext (document type nextId : Json) : Except Failure (ℤ × MtType) :=
  if nextId.isNull then
    if type.isString "LAST" then .ok (-1, .last) else .error (throwWrongTypeError document type)
  else do
    let next ← nextId.getInt
    if type.isString "LAST" then .error (throwWrongTypeError document type)
    else .ok (next, .middle)

/-- A round of the loop over the document (`config.cpp:74-125`). -/
def readModule (document : Json) (st : ReadState) (it : Json) : Except Failure ReadState := do
  let id ← (← it.field "id").getInt
  let params ← (← it.field "parameters").getStrings
  let name ← it.field "name"
  if name.isNull && st.nullNameExist then .error .rejected
  else
    let argv ← readArgv name params
    let type ← it.field "type"
    let (next, mtype) ← readNext document type (← it.field "next_id")
    let nullNameExist := name.isNull || st.nullNameExist
    if type.isString "FIRST" then
      if st.first.isSome then .error (throwWrongTypeError document type)
      else .ok ⟨st.modules ++ [⟨id, .first, next, argv⟩], some st.modules.length, nullNameExist⟩
    else .ok ⟨st.modules ++ [⟨id, mtype, next, argv⟩], st.first, nullNameExist⟩

/-- `idx_map` (`config.cpp:138-141`): later modules overwrite, and `operator[]` gives 0 for an id
that is not in the map. -/
def idxMap (modules : List ModuleT) : ℤ → ℕ :=
  modules.zipIdx.foldl (fun map m id => if id = m.1.id then m.2 else map id) fun _ => 0

/-- `dfs_check` (`config.cpp:20-38`). Each call sets an entry of `was`, so that one more than its
size are enough. -/
def dfsCheck (modules : List ModuleT) : ℕ → List Bool → ℕ → Option ℤ
  | 0, _, _ => none
  | fuel + 1, was, now =>
    match modules[now]? with
    | none => some (-1)
    | some m =>
      if was.getD now false then some (-1)
      else
        let was := was.set now true
        if m.next = -1 then if was.all (· = true) then some 0 else some (-1)
        else dfsCheck modules fuel was (idxMap modules m.next)

/-- `read_modules_configuration` on the document of the file (`config.cpp:65-149`). -/
def readModulesConfiguration (document : Json) : Except Failure (List ModuleT) := do
  let st ← document.items.foldlM (readModule document) ⟨[], none, false⟩
  match st.first with
  | none => .error .rejected
  | some first =>
    if dfsCheck st.modules (st.modules.length + 1) (List.replicate st.modules.length false) first =
        some 0 then .ok st.modules
    else .error .rejected

/-- The description that `read_pipeline_configuration` makes of a module (`config.cpp:163-176`);
the `mode` of a module without a link is not set. -/
def ModuleT.description (m : ModuleT) : ModuleDescription where
  id := m.id
  type := m.type
  mode := if m.next = -1 then .internal else .external
  next := m.next

/-- The loop of `pipeline_modules_update` (`pipeline_module.c:108-131`). -/
def updateFrom (modules : List ModuleDescription) : List ModuleDescription → Bool → ℤ
  | [], _ => 0
  | m :: rest, nullFound =>
    if pipelineModuleGet m.next modules = none then
      if nullFound then -1 else updateFrom modules rest true
    else updateFrom modules rest nullFound

def pipelineModulesUpdate (modules : List ModuleDescription) : ℤ := updateFrom modules modules false

/-- `->next` of a module after the update. -/
def linkOf (modules : List ModuleDescription) (i : ℕ) : Option ℕ :=
  modules[i]?.bind fun m => pipelineModuleGet m.next modules

/-- `i` is the place of the only module of this type. -/
def Single (modules : List ModuleDescription) (type : MtType) (i : ℕ) : Prop :=
  ∀ j, modules[j]?.map ModuleDescription.type = some type ↔ j = i

/-- The update succeeds, and the links lead from the single `FIRST` module over every module to the
single `LAST` one, which has no link. -/
def Runnable (modules : List ModuleDescription) : Prop :=
  pipelineModulesUpdate modules = 0 ∧
  ∃ first last path, Single modules .first first ∧ Single modules .last last ∧
    Visits (linkOf modules) modules.length first path ∧ path.getLast? = some last ∧
    linkOf modules last = none

/-- The ids are distinct and none is -1, every link is to a module, and only a `LAST` module has
none. -/
structure WellLinked (modules : List ModuleT) : Prop where
  nodup : (modules.map ModuleT.id).Nodup
  no_minus_one : -1 ∉ modules.map ModuleT.id
  linked : ∀ m ∈ modules, m.next ≠ -1 → m.next ∈ modules.map ModuleT.id
  last : ∀ m ∈ modules, m.next = -1 → m.type = .last

/-! ### Documents that are read -/

/-- A module that is read has a type, and a `LAST` one has no link. -/
def ModuleT.Typed (m : ModuleT) : Prop :=
  m.type = .first ∨ m.type = .middle ∨ m.type = .last ∧ m.next = -1

theorem ModuleT.Typed.last {m : ModuleT} (h : m.Typed) (hl : m.type = .last) : m.next = -1 := by
  rcases h with h | h | h
  · cases h.symm.trans hl
  · cases h.symm.trans hl
  · exact h.2

/-- What is known of the modules read so far: `first` is the place of the only `FIRST` one. -/
structure Read (st : ReadState) : Prop where
  typed : ∀ m ∈ st.modules, m.Typed
  first : ∀ i, st.modules[i]?.map ModuleT.type = some .first ↔ st.first = some i

section Read

variable {document type nextId it : Json} {st st' : ReadState} {next : ℤ} {mtype : MtType}
  {modules : List ModuleT}

theorem bind_ok {α β : Type} {x : Except Failure α} {f : α → Except Failure β} {b : β}
    (h : x >>= f = .ok b) : ∃ a, x = .ok a ∧ f a = .ok b := by
  cases x with
  | error e => cases h
  | ok a => exact ⟨a, rfl, h⟩

theorem readNext_ok (h : readNext document type nextId = .ok (next, mtype)) :
    mtype = .last ∧ next = -1 ∨ mtype = .middle := by
  rw [readNext] at h
  split at h
  · split at h
    · cases h
      exact .inl ⟨rfl, rfl⟩
    · cases h
  · obtain ⟨n, -, h⟩ := bind_ok h
    split at h
    · cases h
    · cases h
      exact .inr rfl

/-- A module that is read: the first one there is, or one that is linked unless it is the last. -/
theorem readModule_ok (h : readModule document st it = .ok st') :
    ∃ m, st'.modules = st.modules ++ [m] ∧ m.Typed ∧
      (m.type = .first ∧ st.first = none ∧ st'.first = some st.modules.length ∨
        m.type ≠ .first ∧ st'.first = st.first) := by
  rw [readModule] at h
  obtain ⟨_, -, h⟩ := bind_ok h
  obtain ⟨id, -, h⟩ := bind_ok h
  obtain ⟨_, -, h⟩ := bind_ok h
  obtain ⟨params, -, h⟩ := bind_ok h
  obtain ⟨name, -, h⟩ := bind_ok h
  split at h
  · cases h
  obtain ⟨argv, -, h⟩ := bind_ok h
  obtain ⟨type, -, h⟩ := bind_ok h
  obtain ⟨nextId, -, h⟩ := bind_ok h
  obtain ⟨⟨next, mtype⟩, hnext, h⟩ := bind_ok h
  simp only at h
  split at h
  · split at h
    · cases h
    · rename_i hfirst
      cases h
      refine ⟨_, rfl, .inl rfl, .inl ⟨rfl, ?_, rfl⟩⟩
      exact Option.not_isSome_iff_eq_none.mp hfirst
  · cases h
    refine ⟨_, rfl, ?_, .inr ⟨?_, rfl⟩⟩
    · rcases readNext_ok hnext with hlast | hm
      · exact .inr (.inr hlast)
      · exact .inr (.inl hm)
    · rcases readNext_ok hnext with ⟨hm, -⟩ | hm
      · exact fun hf => absurd (hm.symm.trans hf) (by decide)
      · exact fun hf => absurd (hm.symm.trans hf) (by decide)

theorem Read.readModule (hr : Read st) (h : readModule document st it = .ok st') : Read st' := by
  obtain ⟨m, hmods, htyped, hfirst⟩ := readModule_ok h
  refine ⟨?_, fun i => ?_⟩
  · rw [hmods]
    intro x hx
    rcases List.mem_append.mp hx with hx | hx
    · exact hr.typed x hx
    · exact List.mem_singleton.mp hx ▸ htyped
  · have hold := hr.first i
    rw [hmods]
    rcases Nat.lt_trichotomy i st.modules.length with hi | rfl | hi
    · rw [List.getElem?_append_left hi, hold]
      rcases hfirst with ⟨-, hnone, hsome⟩ | ⟨-, hsome⟩
      · rw [hnone, hsome, Option.some.injEq]
        exact iff_of_false nofun (by omega)
      · rw [hsome]
    · rw [List.getElem?_concat_length, Option.map_some, Option.some.injEq]
      rw [List.getElem?_eq_none (Nat.le_refl _), Option.map_none] at hold
      rcases hfirst with ⟨hm, -, hsome⟩ | ⟨hm, hsome⟩
      · exact iff_of_true hm hsome
      · rw [hsome]
        exact iff_of_false hm fun hs => nomatch hold.mpr hs
    · have hlen : (st.modules ++ [m]).length ≤ i := by
        rw [List.length_append, List.length_singleton]
        omega
      rw [List.getElem?_eq_none (Nat.le_of_lt hi)] at hold
      rw [List.getElem?_eq_none hlen]
      rcases hfirst with ⟨-, -, hsome⟩ | ⟨-, hsome⟩
      · rw [hsome, Option.some.injEq]
        exact iff_of_false nofun (by omega)
      · rw [hsome]
        exact hold

theorem read_items {items : List Json} (hr : Read st)
    (h : items.foldlM (readModule document) st = .ok st') : Read st' := by
  induction items generalizing st with
  | nil =>
    cases h
    exact hr
  | cons it items ih =>
    rw [List.foldlM_cons] at h
    obtain ⟨mid, hmid, hrest⟩ := bind_ok h
    exact ih (hr.readModule hmid) hrest

/-- The modules of an accepted document, the place of the first one, and what `dfs_check` gave. -/
theorem accepted (h : readModulesConfiguration document = .ok modules) :
    (∀ m ∈ modules, m.Typed) ∧
    ∃ first, (∀ i, modules[i]?.map ModuleT.type = some .first ↔ i = first) ∧
      dfsCheck modules (modules.length + 1) (List.replicate modules.length false) first = some 0 := by
  rw [readModulesConfiguration] at h
  obtain ⟨st, hst, h⟩ := bind_ok h
  have hread : Read st := by
    refine read_items ⟨fun m hm => (List.not_mem_nil hm).elim, fun i => ?_⟩ hst
    exact iff_of_false nofun nofun
  split at h
  · cases h
  · rename_i first hfirst
    split at h
    · rename_i hdfs
      cases h
      refine ⟨hread.typed, first, fun i => ?_, hdfs⟩
      rw [hread.first i, hfirst, Option.some.injEq]
      exact eq_comm
    · cases h

end Read

/-! ### The walk of dfs_check -/

/-- The place that `dfs_check` goes on to. -/
def dfsNext (modules : List ModuleT) (i : ℕ) : Option ℕ :=
  modules[i]?.bind fun m => if m.next = -1 then none else some (idxMap modules m.next)

section Dfs

variable {modules : List ModuleT} {fuel now i : ℕ} {was : List Bool} {m : ModuleT} {id : ℤ}

theorem dfsNext_eq (h : modules[i]? = some m) :
    dfsNext modules i = if m.next = -1 then none else some (idxMap modules m.next) := by
  rw [dfsNext, h, Option.bind_some]

theorem idxMap_concat : idxMap (modules ++ [m]) id =
    if id = m.id then modules.length else idxMap modules id := by
  rw [idxMap, List.zipIdx_append, List.foldl_append]
  simp only [Nat.zero_add, List.zipIdx_cons, List.zipIdx_nil, List.foldl_cons, List.foldl_nil, idxMap]

/-- The map has the last place with an id, and 0 where there is none. -/
theorem idxMap_spec (modules : List ModuleT) (id : ℤ) :
    (idxMap modules id = 0 ∧ id ∉ modules.map ModuleT.id) ∨
    (modules[idxMap modules id]?.map ModuleT.id = some id ∧
      ∀ j, modules[j]?.map ModuleT.id = some id → j ≤ idxMap modules id) := by
  induction modules using List.reverseRecOn with
  | nil => exact .inl ⟨rfl, List.not_mem_nil⟩
  | append_singleton modules m ih =>
    rw [idxMap_concat]
    split
    · rename_i hid
      refine .inr ⟨?_, fun j hj => ?_⟩
      · rw [List.getElem?_concat_length, Option.map_some, hid]
      · obtain ⟨x, hx, -⟩ := Option.map_eq_some_iff.mp hj
        have hlt := (List.getElem?_eq_some_iff.mp hx).1
        rw [List.length_append, List.length_singleton] at hlt
        omega
    · rename_i hid
      rcases ih with ⟨h0, hnot⟩ | ⟨hat, hmax⟩
      · refine .inl ⟨h0, fun hm => ?_⟩
        rw [List.map_append, List.mem_append, List.map_singleton, List.mem_singleton] at hm
        exact hm.elim hnot hid
      · obtain ⟨x, hx, -⟩ := Option.map_eq_some_iff.mp hat
        have hlt := (List.getElem?_eq_some_iff.mp hx).1
        refine .inr ⟨?_, fun j hj => ?_⟩
        · rw [List.getElem?_append_left hlt]
          exact hat
        · by_cases hjl : j < modules.length
          · rw [List.getElem?_append_left hjl] at hj
            exact hmax j hj
          · obtain ⟨y, hy, hyid⟩ := Option.map_eq_some_iff.mp hj
            have hjlt := (List.getElem?_eq_some_iff.mp hy).1
            rw [List.length_append, List.length_singleton] at hjlt
            have hje : j = modules.length := by omega
            rw [hje, List.getElem?_concat_length, Option.some.injEq] at hy
            exact absurd (hy ▸ hyid.symm) hid

/-- A successful check walked over unmarked places, and then all places are marked. -/
theorem dfsCheck_path (hlen : was.length = modules.length)
    (h : dfsCheck modules fuel was now = some 0) :
    ∃ path : List ℕ, path[0]? = some now ∧
      (∀ p i, path[p]? = some i → dfsNext modules i = path[p + 1]?) ∧ path.Nodup ∧
      (∀ i ∈ path, i < modules.length ∧ was[i]? = some false) ∧
      ∀ i < modules.length, was[i]? = some true ∨ i ∈ path := by
  induction fuel generalizing was now with
  | zero => cases h
  | succ fuel ih =>
    rw [dfsCheck] at h
    split at h
    · cases h
    rename_i m hm
    have hnow := (List.getElem?_eq_some_iff.mp hm).1
    split at h
    · cases h
    rename_i hwas
    have hfalse : was[now]? = some false := by
      rw [List.getD_eq_getElem?_getD, List.getElem?_eq_getElem (hlen ▸ hnow)] at hwas
      rw [List.getElem?_eq_getElem (hlen ▸ hnow)]
      simpa using hwas
    simp only at h
    split at h
    · rename_i hnext
      split at h
      · rename_i hall
        refine ⟨[now], rfl, fun p i hp => ?_, List.nodup_singleton _, fun i hi => ?_, fun i hi => ?_⟩
        · cases p with
          | zero =>
            cases hp
            rw [dfsNext_eq hm, if_pos hnext]
            rfl
          | succ p => cases hp
        · cases List.mem_singleton.mp hi
          exact ⟨hnow, hfalse⟩
        · by_cases hin : i = now
          · exact .inr (List.mem_singleton.mpr hin)
          · refine .inl ?_
            have hi' : i < (was.set now true).length := by rw [List.length_set]; omega
            have htrue := List.all_eq_true.mp hall _ (List.getElem_mem hi')
            rw [List.getElem_set_ne (Ne.symm hin)] at htrue
            rw [List.getElem?_eq_getElem (by omega), of_decide_eq_true htrue]
      · cases h
    · rename_i hnext
      obtain ⟨path, hhead, hstep, hnodup, hmem, hcover⟩ := ih (by rw [List.length_set, hlen]) h
      have hnot : now ∉ path := by
        intro hin
        have hset := (hmem now hin).2
        rw [List.getElem?_set_self (hlen ▸ hnow)] at hset
        cases hset
      refine ⟨now :: path, rfl, fun p i hp => ?_, List.nodup_cons.mpr ⟨hnot, hnodup⟩, fun i hi => ?_,
        fun i hi => ?_⟩
      · cases p with
        | zero =>
          cases hp
          rw [dfsNext_eq hm, if_neg hnext, List.getElem?_cons_succ, hhead]
        | succ p => exact hstep p i hp
      · rcases List.mem_cons.mp hi with rfl | hi
        · exact ⟨hnow, hfalse⟩
        · have hne : now ≠ i := fun he => hnot (he ▸ hi)
          exact ⟨(hmem i hi).1, List.getElem?_set_ne hne ▸ (hmem i hi).2⟩
      · by_cases hin : now = i
        · exact .inr (hin ▸ List.mem_cons_self)
        · exact (hcover i hi).imp (fun ht => List.getElem?_set_ne hin ▸ ht) (List.mem_cons_of_mem _)

/-- The check ends: a call that goes on has marked one more place. -/
theorem dfsCheck_isSome (hlen : was.length = modules.length) (h : was.count false < fuel) :
    (dfsCheck modules fuel was now).isSome = true := by
  induction fuel generalizing was now with
  | zero => omega
  | succ fuel ih =>
    rw [dfsCheck]
    split
    · rfl
    rename_i m hm
    split
    · rfl
    rename_i hwas
    simp only
    split
    · split <;> rfl
    · have hnow : now < was.length := hlen ▸ (List.getElem?_eq_some_iff.mp hm).1
      have hget : was[now] = false := by
        rw [List.getD_eq_getElem?_getD, List.getElem?_eq_getElem hnow] at hwas
        simpa using hwas
      have hpos : 0 < was.count false := List.count_pos_iff.mpr (hget ▸ List.getElem_mem hnow)
      have hcount : (was.set now true).count false = was.count false - 1 := by
        rw [List.count_set hnow, hget]
        rfl
      exact ih (by rw [List.length_set, hlen]) (by omega)

theorem dfsCheck_visits {first : ℕ}
    (h : dfsCheck modules fuel (List.replicate modules.length false) first = some 0) :
    ∃ path, Visits (dfsNext modules) modules.length first path := by
  obtain ⟨path, hhead, hnext, hnodup, hmem, hcover⟩ := dfsCheck_path List.length_replicate h
  refine ⟨path, hhead, hnext, hnodup, fun i => ⟨fun hi => (hmem i hi).1, fun hi => ?_⟩⟩
  refine (hcover i hi).resolve_left fun ht => ?_
  rw [List.getElem?_replicate, if_pos hi] at ht
  cases ht

end Dfs

/-! ### The links of pipeline_modules_update -/

section Links

variable {modules : List ModuleT} {i j k : ℕ} {m : ModuleT} {id : ℤ}

/-- The descriptions of the modules. -/
def descriptions (modules : List ModuleT) : List ModuleDescription :=
  modules.map ModuleT.description

theorem get_eq : pipelineModuleGet id (descriptions modules) =
    modules.findIdx? fun m => m.id = id := by
  rw [pipelineModuleGet, descriptions, List.findIdx?_map]
  rfl

theorem get_none : pipelineModuleGet id (descriptions modules) = none ↔
    id ∉ modules.map ModuleT.id := by
  rw [get_eq, List.findIdx?_eq_none_iff]
  constructor
  · intro h hid
    obtain ⟨m, hm, rfl⟩ := List.mem_map.mp hid
    simpa using h m hm
  · intro h m hm
    exact decide_eq_false fun he => h (List.mem_map.mpr ⟨m, hm, he⟩)

theorem get_some (h : pipelineModuleGet id (descriptions modules) = some k) :
    modules[k]?.map ModuleT.id = some id ∧
      ∀ j, modules[j]?.map ModuleT.id = some id → k ≤ j := by
  rw [get_eq] at h
  obtain ⟨hk, hid, hmin⟩ := List.findIdx?_eq_some_iff_getElem.mp h
  refine ⟨?_, fun j hj => ?_⟩
  · rw [List.getElem?_eq_getElem hk, Option.map_some, of_decide_eq_true hid]
  · obtain ⟨x, hx, hxid⟩ := Option.map_eq_some_iff.mp hj
    obtain ⟨hjl, rfl⟩ := List.getElem?_eq_some_iff.mp hx
    by_contra hlt
    exact hmin j (Nat.lt_of_not_le hlt) (decide_eq_true hxid)

theorem linkOf_eq (h : modules[i]? = some m) :
    linkOf (descriptions modules) i = pipelineModuleGet m.next (descriptions modules) := by
  rw [linkOf, descriptions, List.getElem?_map, h]
  rfl

/-- Two places with one id, of modules with distinct ids. -/
theorem place_unique (hnodup : (modules.map ModuleT.id).Nodup)
    (hi : modules[i]?.map ModuleT.id = some id) (hj : modules[j]?.map ModuleT.id = some id) :
    i = j := by
  rw [← List.getElem?_map] at hi hj
  have hlt := (List.getElem?_eq_some_iff.mp hi).1
  exact (List.getElem?_inj hlt hnodup).mp (hi.trans hj.symm)

/-- Both walks go the same way if the modules are well linked. -/
theorem WellLinked.link_eq (hw : WellLinked modules) (hi : i < modules.length) :
    linkOf (descriptions modules) i = dfsNext modules i := by
  have hm := List.getElem?_eq_getElem hi
  rw [linkOf_eq hm, dfsNext_eq hm]
  split
  · rename_i hnext
    rw [hnext]
    exact get_none.mpr hw.no_minus_one
  · rename_i hnext
    have hmem := hw.linked _ (List.getElem_mem hi) hnext
    rcases idxMap_spec modules modules[i].next with ⟨-, hnot⟩ | ⟨hat, -⟩
    · exact absurd hmem hnot
    · cases hget : pipelineModuleGet modules[i].next (descriptions modules) with
      | none => exact absurd hmem (get_none.mp hget)
      | some k => rw [place_unique hw.nodup (get_some hget).1 hat]

theorem updateFrom_linked {all rest : List ModuleDescription} {nullFound : Bool}
    (h : ∀ m ∈ rest, pipelineModuleGet m.next all ≠ none) : updateFrom all rest nullFound = 0 := by
  induction rest with
  | nil => rfl
  | cons m rest ih =>
    rw [updateFrom, if_neg (h m List.mem_cons_self)]
    exact ih fun x hx => h x (List.mem_cons_of_mem _ hx)

theorem updateFrom_pairwise {all rest : List ModuleDescription}
    (h : rest.Pairwise fun a b => pipelineModuleGet a.next all = none →
      pipelineModuleGet b.next all ≠ none) : updateFrom all rest false = 0 := by
  induction rest with
  | nil => rfl
  | cons m rest ih =>
    obtain ⟨hm, hrest⟩ := List.pairwise_cons.mp h
    rw [updateFrom]
    split
    · rename_i hnull
      exact updateFrom_linked fun x hx => hm x hx hnull
    · exact ih hrest

/-- The update succeeds if at most one module has no link. -/
theorem update_of_visits {first : ℕ} {path : List ℕ} {all : List ModuleDescription}
    (h : Visits (linkOf all) all.length first path) : pipelineModulesUpdate all = 0 := by
  refine updateFrom_pairwise (List.pairwise_iff_getElem.mpr fun i j hi hj hlt hni hnj => ?_)
  refine Nat.ne_of_lt hlt (h.stop_unique hi hj ?_ ?_)
  · rw [linkOf, List.getElem?_eq_getElem hi, Option.bind_some, hni]
  · rw [linkOf, List.getElem?_eq_getElem hj, Option.bind_some, hnj]

theorem type_descriptions : (descriptions modules)[i]?.map ModuleDescription.type =
    modules[i]?.map ModuleT.type := by
  rw [descriptions, List.getElem?_map, Option.map_map]
  rfl

theorem length_descriptions : (descriptions modules).length = modules.length := List.length_map _

theorem dfsNext_none (hi : i < modules.length) :
    dfsNext modules i = none ↔ modules[i].next = -1 := by
  rw [dfsNext_eq (List.getElem?_eq_getElem hi)]
  split <;> simp_all

end Links

section Accepted

variable {document : Json} {modules : List ModuleT} {first last : ℕ} {path : List ℕ}

/-- The modules are well linked if the links of the update make them a chain too. -/
theorem wellLinked_of_visits (hread : ∀ m ∈ modules, m.Typed)
    (hdfs : Visits (dfsNext modules) modules.length first path) {path' : List ℕ}
    (hlink : Visits (linkOf (descriptions modules)) modules.length first path')
    (hlast : modules[last]?.map ModuleT.type = some .last)
    (hend : linkOf (descriptions modules) last = none) : WellLinked modules := by
  obtain ⟨l, hl, hltype⟩ := Option.map_eq_some_iff.mp hlast
  obtain ⟨hlt, rfl⟩ := List.getElem?_eq_some_iff.mp hl
  have hlnext := (hread _ (List.getElem_mem hlt)).last hltype
  have hstop : ∀ i (hi : i < modules.length), modules[i].next = -1 → i = last := fun i hi hn =>
    hdfs.stop_unique hi hlt ((dfsNext_none hi).mpr hn) ((dfsNext_none hlt).mpr hlnext)
  have hlinked : ∀ m ∈ modules, m.next ≠ -1 → m.next ∈ modules.map ModuleT.id := by
    intro m hm hnext
    obtain ⟨i, hi, rfl⟩ := List.mem_iff_getElem.mp hm
    by_contra hnot
    have hnone : linkOf (descriptions modules) i = none :=
      (linkOf_eq (List.getElem?_eq_getElem hi)).trans (get_none.mpr hnot)
    have heq := hlink.stop_unique hi hlt hnone hend
    subst heq
    exact hnext hlnext
  refine ⟨?_, ?_, hlinked, ?_⟩
  · rw [List.nodup_iff_pairwise_ne, List.pairwise_iff_getElem]
    intro i j hi hj hij heq
    rw [List.length_map] at hi hj
    rw [List.getElem_map, List.getElem_map] at heq
    have hidi : modules[i]?.map ModuleT.id = some modules[i].id := by
      rw [List.getElem?_eq_getElem hi, Option.map_some]
    have hidj : modules[j]?.map ModuleT.id = some modules[i].id := by
      rw [List.getElem?_eq_getElem hj, Option.map_some, heq]
    -- the search never finds the later module, so it is the first
    have hjfirst : j = first := by
      by_contra hne
      obtain ⟨k, hk, hkj⟩ := hlink.exists_pred hj hne
      rw [linkOf_eq (List.getElem?_eq_getElem hk)] at hkj
      obtain ⟨hat, hmin⟩ := get_some hkj
      rw [hidj, Option.some.injEq] at hat
      exact absurd (hmin i (hidi.trans (congrArg some hat))) (Nat.not_le.mpr hij)
    -- the map never finds the earlier one
    obtain ⟨k, hk, hki⟩ := hdfs.exists_pred hi (hjfirst ▸ Nat.ne_of_lt hij)
    rw [dfsNext_eq (List.getElem?_eq_getElem hk)] at hki
    split at hki
    · cases hki
    rename_i hnext
    have hidx := Option.some.inj hki
    rcases idxMap_spec modules modules[k].next with ⟨-, hnot⟩ | ⟨hat, hmax⟩
    · exact hnot (hlinked _ (List.getElem_mem hk) hnext)
    · rw [hidx, hidi, Option.some.injEq] at hat
      have hle := hmax j (hidj.trans (congrArg some hat))
      omega
  · rw [linkOf_eq (List.getElem?_eq_getElem hlt), hlnext] at hend
    exact get_none.mp hend
  · intro m hm hnext
    obtain ⟨i, hi, rfl⟩ := List.mem_iff_getElem.mp hm
    have heq := hstop i hi hnext
    subst heq
    exact hltype

/-- An accepted configuration is a runnable chain exactly if its modules are well linked. -/
theorem accepted_runnable (h : readModulesConfiguration document = .ok modules) :
    Runnable (descriptions modules) ↔ WellLinked modules := by
  obtain ⟨hread, first, hfirst, hcheck⟩ := accepted h
  obtain ⟨path, hdfs⟩ := dfsCheck_visits hcheck
  have hsingle : Single (descriptions modules) .first first := by
    intro i
    rw [type_descriptions]
    exact hfirst i
  constructor
  · rintro ⟨-, first', last, path', hfirst', hlast, hlink, -, hend⟩
    have heq : first = first' := (hfirst' first).mp ((hsingle first).mpr rfl)
    subst heq
    rw [length_descriptions] at hlink
    exact wellLinked_of_visits hread hdfs hlink (type_descriptions ▸ (hlast last).mpr rfl) hend
  · intro hw
    have hlink := hdfs.congr fun i hi => hw.link_eq hi
    obtain ⟨last, hlt, hend⟩ := hlink.exists_stop
    have hnext : modules[last].next = -1 := (dfsNext_none hlt).mp (hw.link_eq hlt ▸ hend)
    have hlast : Single (descriptions modules) .last last := by
      intro i
      rw [type_descriptions]
      constructor
      · intro hi
        obtain ⟨m, hm, hmtype⟩ := Option.map_eq_some_iff.mp hi
        obtain ⟨hilt, rfl⟩ := List.getElem?_eq_some_iff.mp hm
        have hin := (hread _ (List.getElem_mem hilt)).last hmtype
        exact hdfs.stop_unique hilt hlt ((dfsNext_none hilt).mpr hin) ((dfsNext_none hlt).mpr hnext)
      · rintro rfl
        rw [List.getElem?_eq_getElem hlt, Option.map_some, hw.last _ (List.getElem_mem hlt) hnext]
    rw [← length_descriptions] at hlink
    refine ⟨update_of_visits hlink, first, last, path, hsingle, hlast, hlink, ?_, hend⟩
    exact (hlink.succ_eq_none (length_descriptions.symm ▸ hlt)).mp hend

theorem accepted_chain (h : readModulesConfiguration document = .ok modules)
    (hw : WellLinked modules) {cfg : Config} (hcfg : cfg.modules = descriptions modules) :
    Nonempty (Chain cfg) := by
  obtain ⟨hread, first, hfirst, hcheck⟩ := accepted h
  obtain ⟨path, hdfs⟩ := dfsCheck_visits hcheck
  have hlink := hdfs.congr fun i hi => hw.link_eq hi
  have hlen := hlink.length_eq
  have hcnt : cfg.modulesCnt = modules.length := by
    rw [Config.modulesCnt, hcfg, length_descriptions]
  have hmethod : ∀ i (hi : i < modules.length),
      cfg.method i = threadMethod modules[i].description := by
    intro i hi
    rw [Config.method, hcfg, descriptions, List.getElem?_map, List.getElem?_eq_getElem hi]
    rfl
  have hnext_first : ∀ i (hi : i < modules.length), modules[i].type = .first →
      modules[i].next ≠ -1 := by
    intro i hi ht hn
    have hl := hw.last _ (List.getElem_mem hi) hn
    cases ht.symm.trans hl
  have hend : ∀ p i (hi : i < modules.length), path[p]? = some i →
      (modules[i].next = -1 ↔ p + 1 = path.length) := by
    intro p i hi hp
    have hlt := (List.getElem?_eq_some_iff.mp hp).1
    rw [← dfsNext_none hi, hdfs.next p i hp, List.getElem?_eq_none_iff]
    omega
  have hhead : ∀ p i (hi : i < modules.length), path[p]? = some i →
      (modules[i].type = .first ↔ p = 0) := by
    intro p i hi hp
    have ht := hfirst i
    rw [List.getElem?_eq_getElem hi, Option.map_some, Option.some.injEq] at ht
    rw [ht]
    constructor
    · rintro rfl
      have hlt := (List.getElem?_eq_some_iff.mp hp).1
      exact (List.getElem?_inj hlt hlink.nodup).mp (hp.trans hlink.head.symm)
    · rintro rfl
      exact Option.some.inj (hp.symm.trans hlink.head)
  refine ⟨path, hlink.nodup, fun i => by rw [hlink.mem, hcnt], ?_, fun p i hp => ?_, fun p i hp => ?_⟩
  · have hlt := (List.getElem?_eq_some_iff.mp hlink.head).1
    have hi : first < modules.length := (hlink.mem first).mp (List.mem_of_getElem? hlink.head)
    have hne := (hend 0 first hi hlink.head).not.mp
      (hnext_first first hi ((hhead 0 first hi hlink.head).mpr rfl))
    omega
  · rw [← hlink.next p i hp, Config.next, hcfg, linkOf]
  · have hi : i < modules.length := (hlink.mem i).mp (List.mem_of_getElem? hp)
    rw [hmethod i hi, threadMethod, chainMethod, ModuleT.description]
    rcases hread _ (List.getElem_mem hi) with ht | ht | ⟨ht, hn⟩
    · have hnext := hnext_first i hi ht
      rw [ht, if_neg hnext, if_pos ((hhead p i hi hp).mp ht)]
      rfl
    · have hnot : modules[i].next ≠ -1 := by
        intro hn
        have hl := hw.last _ (List.getElem_mem hi) hn
        cases ht.symm.trans hl
      have hp0 : p ≠ 0 := (hhead p i hi hp).not.mp fun hf => by
        cases ht.symm.trans hf
      rw [ht, if_neg hp0, if_neg ((hend p i hi hp).not.mp hnot)]
    · have hp0 : p ≠ 0 := (hhead p i hi hp).not.mp fun hf => by
        cases ht.symm.trans hf
      rw [ht, if_neg hp0, if_pos ((hend p i hi hp).mp hn)]

end Accepted

/-- A module of a document, with a name and no parameters. -/
def moduleJson (id : ℤ) (type : String) (nextId : Json) : Json :=
  .object [("id", .number id), ("name", .string "bin/tmk"), ("parameters", .array []),
    ("type", .string type), ("next_id", nextId)]

/-- Two modules; the last one has the id 7. -/
def twoModules (firstId firstNext : ℤ) : Json :=
  .array [moduleJson firstId "FIRST" (.number firstNext), moduleJson 7 "LAST" .null]

theorem accepted_runnable_two :
    readModulesConfiguration (twoModules 1 7) =
      .ok [⟨1, .first, 7, ["bin/tmk"]⟩, ⟨7, .last, -1, ["bin/tmk"]⟩] ∧
    Runnable (descriptions [⟨1, .first, 7, ["bin/tmk"]⟩, ⟨7, .last, -1, ["bin/tmk"]⟩]) := by
  have h : readModulesConfiguration (twoModules 1 7) =
      .ok [⟨1, .first, 7, ["bin/tmk"]⟩, ⟨7, .last, -1, ["bin/tmk"]⟩] := by rfl
  exact ⟨h, (accepted_runnable h).mpr ⟨by decide, by decide, by decide, by decide⟩⟩

/-- Both modules have the id 7: the map leads from the first to the last, the search to itself. -/
theorem accepted_runnable_same :
    readModulesConfiguration (twoModules 7 7) =
      .ok [⟨7, .first, 7, ["bin/tmk"]⟩, ⟨7, .last, -1, ["bin/tmk"]⟩] ∧
    ¬ Runnable (descriptions [⟨7, .first, 7, ["bin/tmk"]⟩, ⟨7, .last, -1, ["bin/tmk"]⟩]) := by
  refine ⟨by rfl, ?_⟩
  rintro ⟨-, first, last, path, hfirst, -, hlink, -, -⟩
  have h0 : first = 0 := ((hfirst 0).mp (by decide)).symm
  have hhead := hlink.head
  rw [h0] at hhead
  have hnext := hlink.next 0 0 hhead
  have hself : linkOf (descriptions [⟨7, .first, 7, ["bin/tmk"]⟩, ⟨7, .last, -1, ["bin/tmk"]⟩]) 0 =
      some 0 := by decide
  have hlt := (List.getElem?_eq_some_iff.mp hhead).1
  exact absurd ((List.getElem?_inj hlt hlink.nodup).mp (hhead.trans (hself.symm.trans hnext)))
    (by decide)

end TmkDcl.Pipeline
