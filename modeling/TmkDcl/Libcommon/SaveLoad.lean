import TmkDcl.Libcommon.ElementJson

/-!
# Saving and loading a configuration (configurator.cpp, config_factory.h)

An element is written under a key that stands for its name and read back under a name made from
that key. Both go through "default" and the names of the types, where they meet.
-/

namespace TmkDcl.Libcommon

open TmkDcl (Json JsonError)

/-! ### Going through the fields of a file -/

section Parsing

/-- What the loop of `parseConfig` finds in a field. -/
def found (kv : String × Json String) : Option (ConfigHolderKey × Element) :=
  (elementOf kv).toOption.join

theorem lookup_insertNew (storage : Storage) (entry : ConfigHolderKey × Element)
    (key : ConfigHolderKey) :
    (insertNew storage entry).lookup key = (storage.lookup key).or ([entry].lookup key) := by
  unfold insertNew
  split
  · rename_i h
    obtain ⟨e, he⟩ := Option.isSome_iff_exists.mp h
    by_cases hk : key = entry.1
    · rw [hk, he, Option.some_or]
    · have hbeq : (key == entry.1) = false := by simpa using hk
      rw [List.lookup_cons, hbeq]
      simp
  · rw [List.lookup_append]

theorem lookup_foldl_insertNew (entries storage : Storage) (key : ConfigHolderKey) :
    (entries.foldl insertNew storage).lookup key =
      (storage.lookup key).or (entries.lookup key) := by
  induction entries generalizing storage with
  | nil => simp
  | cons entry entries ih =>
    rw [List.foldl_cons, ih, lookup_insertNew, Option.or_assoc]
    congr 1
    rw [← List.lookup_append]
    rfl

/-- One pass of the loop of `parseConfig`. -/
def parseField (storage : Storage) (kv : String × Json String) : Except LoadError Storage := do
  match ← elementOf kv with
  | none => return storage
  | some entry => return insertNew storage entry

/-- The loop gets through exactly if it can read every field, and then it has what it found. -/
theorem foldlM_parseField (fields : Fields) (storage loaded : Storage) :
    fields.foldlM parseField storage = .ok loaded ↔
      (∀ kv ∈ fields, elementOf kv = .ok (found kv)) ∧
        (fields.filterMap found).foldl insertNew storage = loaded := by
  induction fields generalizing storage with
  | nil =>
    simp only [List.not_mem_nil, false_imp_iff, implies_true, true_and, List.filterMap_nil,
      List.foldl_nil]
    exact ⟨fun h => Except.ok.inj h, fun h => congrArg _ h⟩
  | cons kv fields ih =>
    rw [List.foldlM_cons, List.forall_mem_cons]
    cases h : elementOf kv with
    | error e =>
      have hstep : parseField storage kv = .error e := by
        rw [parseField, h]
        rfl
      rw [hstep]
      constructor
      · intro hok
        cases hok
      · intro hall
        cases hall.1.1
    | ok entry =>
      have hfound : found kv = entry := by
        rw [found, h]
        rfl
      rw [hfound]
      cases entry with
      | none =>
        have hstep : parseField storage kv = .ok storage := by
          rw [parseField, h]
          rfl
        rw [hstep, List.filterMap_cons_none hfound]
        show fields.foldlM parseField storage = _ ↔ _
        rw [ih]
        simp
      | some entry =>
        have hstep : parseField storage kv = .ok (insertNew storage entry) := by
          rw [parseField, h]
          rfl
        rw [hstep, List.filterMap_cons_some hfound]
        show fields.foldlM parseField (insertNew storage entry) = _ ↔ _
        rw [ih]
        simp

theorem parseConfig_eq_ok (fields : Fields) (loaded : Storage) :
    parseConfig fields = .ok loaded ↔
      (∀ kv ∈ fields, elementOf kv = .ok (found kv)) ∧
        (fields.filterMap found).foldl insertNew [] = loaded :=
  foldlM_parseField fields [] loaded

theorem findMetaInfo_eq (fields : Fields) (test : String × Json String → Bool)
    (h : ∀ kv ∈ fields, isMetaInfo kv = .ok (test kv)) :
    findMetaInfo fields = .ok ((fields.find? test).map Prod.snd) := by
  induction fields with
  | nil => rfl
  | cons kv fields ih =>
    have hrest := ih fun kv' hkv' => h kv' (List.mem_cons_of_mem _ hkv')
    rw [findMetaInfo, h kv List.mem_cons_self]
    cases htest : test kv with
    | true =>
      rw [List.find?_cons_of_pos htest]
      rfl
    | false =>
      rw [List.find?_cons_of_neg (by simp [htest])]
      exact hrest

end Parsing

/-! ### Keys -/

section Keys

variable {timeText : ℤ → String} {now : ℤ} {config : Configuration} {e : Element}

/-- The value that is written for an element, and the key for it. -/
def Element.value (e : Element) : Json String :=
  .object (objJson e.configType e.toJson e.objectName)

def Element.key (e : Element) : String := objKey e.configType e.objectName

/-- The name under which an element is put by `parseConfig`. -/
def Element.loadedName (e : Element) : String :=
  if e.objectName = "" ∨ e.objectName = e.configType.text ∨ e.objectName = defaultNameAttr then ""
  else e.objectName

theorem entry_type (type : ConfigType) (object : Fields) (name : String) :
    (Json.object (objJson type object name)).entry typeAttr = .ok (.string type.text) := by
  rw [objJson, entry_setField_of_ne (by decide), entry_setField_self]

theorem entry_name (type : ConfigType) (object : Fields) (name : String) :
    (Json.object (objJson type object name)).entry nameAttr =
      .ok (.string (if name = "" then defaultNameAttr else name)) := by
  rw [objJson, entry_setField_self]

theorem isMetaInfo_objJson (k : String) (type : ConfigType) (object : Fields) (name : String) :
    isMetaInfo (k, .object (objJson type object name)) =
      .ok (type.text == "meta_info" && k == "meta_info") := by
  rw [isMetaInfo, entry_type]
  rfl

theorem elementOf_metaInfo (object : Fields) :
    elementOf ("meta_info", .object (objJson .metaInfo object "")) = .ok none := by
  rw [elementOf, entry_type, entry_name]
  rfl

theorem text_ne_empty (type : ConfigType) : type.text ≠ "" := by
  cases type <;> decide

/-- Both ways of writing that an element has no name are taken for it. -/
theorem loadedName_eq (e : Element) :
    (if e.key = e.configType.text ∨
      isDefaultName (.string (if e.objectName = "" then defaultNameAttr else e.objectName)) then ""
    else e.key) = e.loadedName := by
  rw [Element.loadedName, Element.key, objKey]
  by_cases hempty : e.objectName = ""
  · simp [hempty]
  · simp [hempty, isDefaultName]

theorem elementOf_element (e : Element) : elementOf (e.key, e.value) =
    (createFromElementByTypeName e.configType.text e.loadedName e.value).map
      fun element => some ((e.configType.text, e.loadedName), element) := by
  have hregistered : e.configType.text ∈ registeredSerializedStrings := by
    cases e <;> simp [Element.configType, ConfigType.text, registeredSerializedStrings]
  rw [elementOf, Element.value, entry_type, entry_name]
  show (if e.configType.text ∈ registeredSerializedStrings then
    (createFromElementByTypeName e.configType.text (if e.key = e.configType.text ∨
      isDefaultName (.string (if e.objectName = "" then defaultNameAttr else e.objectName)) then ""
      else e.key) e.value).bind fun element => Except.ok (some ((e.configType.text,
        if e.key = e.configType.text ∨ isDefaultName (.string
          (if e.objectName = "" then defaultNameAttr else e.objectName)) then ""
        else e.key), element))
    else Except.ok none) =
    (createFromElementByTypeName e.configType.text e.loadedName e.value).map _
  rw [if_pos hregistered, loadedName_eq]
  cases createFromElementByTypeName e.configType.text e.loadedName e.value with
  | ok element => rfl
  | error x => rfl

/-- Equal elements. -/
def Element.Same : Element → Element → Prop
  | .server s, .server t => s = t
  | .pipeline p, .pipeline q => p.Same q
  | .fakeCamera c, .fakeCamera d => c = d
  | _, _ => False

theorem create_value (e : Element) (key : String) :
    createFromElementByTypeName e.configType.text key e.value =
      match e with
      | .server s => .ok (.server s)
      | .pipeline p =>
        (PipelineConfig.fromJson key (p.fields p.pipeLineConfigName)).map .pipeline
      | .fakeCamera c => .ok (.fakeCamera c) := by
  cases e with
  | server s =>
    show (monadLift (ServerSettings.fromJson
      (.object (objJson .serverSettings s.toJson ""))) : Except LoadError _).map _ = _
    rw [server_fromJson]
    rfl
  | pipeline p => rfl
  | fakeCamera c =>
    show (monadLift (FakeCameraConfig.fromJson
      (.object (objJson .fakeCameraConfig c.toJson ""))) : Except LoadError _).map _ = _
    rw [fakeCamera_fromJson]
    rfl

theorem found_element {entry : ConfigHolderKey × Element} (h : found (e.key, e.value) = some entry) :
    entry.1 = (e.configType.text, e.loadedName) ∧
      createFromElementByTypeName e.configType.text e.loadedName e.value = .ok entry.2 := by
  rw [found, elementOf_element] at h
  cases hcreate : createFromElementByTypeName e.configType.text e.loadedName e.value with
  | error x =>
    rw [hcreate] at h
    cases h
  | ok element =>
    rw [hcreate] at h
    cases h
    exact ⟨rfl, rfl⟩

/-- Every field of the file is that of an element or, if there is none with its key, `meta_info`. -/
theorem lookup_json {k : String} {v : Json String} (h : (config.json timeText now).lookup k = some v) :
    (∃ kv ∈ config.storage, kv.2.key = k ∧ kv.2.value = v) ∨
      (∀ kv ∈ config.storage, kv.2.key ≠ k) ∧ k = "meta_info" ∧
        v = .object (objJson .metaInfo (MetaInfo.toJson timeText
          { config.info with lastModificationTime := now }) "") := by
  cases Json.lookup_foldl_setField config.storage (fun kv => kv.2.key) (fun kv => kv.2.value) h with
  | inl hl => exact .inl hl
  | inr hr =>
    obtain ⟨hne, hlook⟩ := hr
    refine .inr ⟨hne, ?_⟩
    by_cases hk : k = "meta_info"
    · subst hk
      cases hlook
      exact ⟨rfl, rfl⟩
    · rw [fabricsToJson, Json.lookup_setField_of_ne (show k ≠ objKey .metaInfo "" from hk)] at hlook
      cases hlook

theorem sorted_json : Json.SortedFields (config.json timeText now) := by
  apply Json.SortedFields.foldl_setField config.storage (fun kv => kv.2.key) (fun kv => kv.2.value)
  exact sorted_nil.setField _ _

theorem exists_lookup_json {kv : ConfigHolderKey × Element} (h : kv ∈ config.storage) :
    ∃ other ∈ config.storage, other.2.key = kv.2.key ∧
      (config.json timeText now).lookup kv.2.key = some other.2.value :=
  Json.exists_lookup_foldl_setField config.storage (fun kv => kv.2.key) (fun kv => kv.2.value) _ h

end Keys

/-! ### Round trips -/

/-- The file has the same keys and equal elements under them. -/
def RoundTrips (timeText : ℤ → String) (now : ℤ) (config : Configuration) : Prop :=
  ∃ file info loaded, config.save timeText now = .ok file ∧ load file = .ok (info, loaded) ∧
    ∀ key, Option.Rel Element.Same (config.storage.lookup key) (loaded.lookup key)

/-- An element is stored under the name that it is saved with, which stands for no other in the
file, a pipeline comes back by itself, and all texts can be written. -/
structure Restorable (config : Configuration) : Prop where
  names : ∀ kv ∈ config.storage, kv.2.objectName = kv.1.2
  reserved : ∀ kv ∈ config.storage, kv.1.2 ≠ defaultNameAttr ∧ kv.1.2 ≠ "meta_info"
  types : ∀ kv ∈ config.storage, ∀ other ∈ config.storage, kv.1.2 ≠ other.2.configType.text
  nodes : ∀ kv ∈ config.storage, ∀ p, kv.2 = .pipeline p → NodesReadable p.nodes
  texts : ∀ kv ∈ config.storage, kv.2.TextsValid

section RoundTrips

variable {timeText : ℤ → String} {now : ℤ} {config : Configuration}

theorem lookup_of_mem {α β : Type} [BEq α] [LawfulBEq α] {l : List (α × β)} {k : α} {v : β}
    (hnodup : (l.map Prod.fst).Nodup) (h : (k, v) ∈ l) : l.lookup k = some v := by
  induction l with
  | nil => cases h
  | cons kv l ih =>
    rw [List.map_cons, List.nodup_cons] at hnodup
    rw [List.lookup_cons]
    cases List.mem_cons.mp h with
    | inl heq =>
      rw [← heq]
      simp
    | inr hmem =>
      have hne : k ≠ kv.1 := by
        intro heq
        exact hnodup.1 (heq ▸ List.mem_map_of_mem hmem)
      have hbeq : (k == kv.1) = false := by simpa using hne
      rw [hbeq]
      exact ih hnodup.2 hmem

theorem mem_of_lookup {α β : Type} [BEq α] [LawfulBEq α] {l : List (α × β)} {k : α} {v : β}
    (h : l.lookup k = some v) : (k, v) ∈ l := by
  obtain ⟨l₁, l₂, rfl, -⟩ := List.lookup_eq_some_iff.mp h
  exact List.mem_append_right _ List.mem_cons_self

theorem load_eq_ok (fields : Fields) (info : MetaInfo) (loaded : Storage) :
    load (.object fields) = .ok (info, loaded) ↔
      (∃ node, findMetaInfo fields = .ok (some node) ∧ MetaInfo.fromJson node = .ok info) ∧
        parseConfig fields = .ok loaded := by
  rw [load]
  cases findMetaInfo fields with
  | error e =>
    constructor
    · intro h
      cases h
    · rintro ⟨⟨node, hnode, -⟩, -⟩
      cases hnode
  | ok found =>
    cases found with
    | none =>
      constructor
      · intro h
        cases h
      · rintro ⟨⟨node, hnode, -⟩, -⟩
        cases hnode
    | some node =>
      show ((monadLift (MetaInfo.fromJson node) : Except LoadError MetaInfo).bind fun info' =>
        (parseConfig fields).bind fun loaded' => Except.ok (info', loaded')) = _ ↔ _
      cases hinfo : MetaInfo.fromJson node with
      | error e =>
        constructor
        · intro h
          cases h
        · rintro ⟨⟨other, hother, hok⟩, -⟩
          cases hother
          rw [hinfo] at hok
          cases hok
      | ok info' =>
        show ((parseConfig fields).bind fun loaded' => Except.ok (info', loaded')) = _ ↔ _
        cases parseConfig fields with
        | error e =>
          constructor
          · intro h
            cases h
          · rintro ⟨-, hok⟩
            cases hok
        | ok loaded' =>
          constructor
          · intro h
            cases h
            exact ⟨⟨node, rfl, hinfo⟩, rfl⟩
          · rintro ⟨⟨other, hother, hok⟩, hloaded⟩
            cases hother
            rw [hinfo] at hok
            cases hok
            cases hloaded
            rfl

theorem exists_source {loaded : Storage}
    (hparse : parseConfig (config.json timeText now) = .ok loaded)
    (hrel : ∀ key, Option.Rel Element.Same (config.storage.lookup key) (loaded.lookup key))
    {kv : ConfigHolderKey × Element} (h : kv ∈ config.storage) :
    ∃ source ∈ config.storage, ∃ element, source.2.configType.text = kv.1.1 ∧
      source.2.loadedName = kv.1.2 ∧
      createFromElementByTypeName source.2.configType.text kv.1.2 source.2.value = .ok element ∧
      kv.2.Same element ∧
      (config.json timeText now).lookup source.2.key = some source.2.value := by
  obtain ⟨-, hloaded⟩ := (parseConfig_eq_ok _ _).mp hparse
  have hkey := hrel kv.1
  rw [lookup_of_mem config.nodup h] at hkey
  cases hlook : loaded.lookup kv.1 with
  | none =>
    rw [hlook] at hkey
    cases hkey
  | some element =>
    rw [hlook] at hkey
    obtain ⟨hsame⟩ := hkey
    rw [← hloaded, lookup_foldl_insertNew] at hlook
    obtain ⟨field, hfield, hfound⟩ := List.mem_filterMap.mp (mem_of_lookup hlook)
    have hlookup := sorted_json.mem_iff.mp hfield
    cases lookup_json hlookup with
    | inl hl =>
      obtain ⟨source, hsource, hk, hv⟩ := hl
      have hfield' : field = (source.2.key, source.2.value) := Prod.ext hk.symm hv.symm
      rw [hfield'] at hfound
      obtain ⟨hentry, hcreate⟩ := found_element hfound
      have hfst : kv.1.1 = source.2.configType.text := congrArg Prod.fst hentry
      have hsnd : kv.1.2 = source.2.loadedName := congrArg Prod.snd hentry
      refine ⟨source, hsource, element, hfst.symm, hsnd.symm, hsnd ▸ hcreate, hsame, ?_⟩
      rw [hk, hv]
      exact hlookup
    | inr hr =>
      obtain ⟨-, hk, hv⟩ := hr
      have hnone : found field = none := by
        rw [found, show field = (field.1, field.2) from rfl, hk, hv, elementOf_metaInfo]
        rfl
      rw [hnone] at hfound
      cases hfound

theorem storage_ext {kv other : ConfigHolderKey × Element} (h : kv ∈ config.storage)
    (hother : other ∈ config.storage) (htype : kv.1.1 = other.1.1) (hname : kv.1.2 = other.1.2) :
    kv = other :=
  List.inj_on_of_nodup_map config.nodup h hother (Prod.ext htype hname)

theorem text_injective : Function.Injective ConfigType.text := by
  intro a b h
  cases a <;> cases b <;> first | rfl | exact absurd h (by decide)

theorem loadedName_of_ne {e : Element} (h : e.loadedName ≠ "") : e.loadedName = e.objectName ∧
    e.objectName ≠ e.configType.text ∧ e.objectName ≠ defaultNameAttr := by
  unfold Element.loadedName at h ⊢
  split at h
  · exact absurd rfl h
  · rename_i hnone
    rw [if_neg hnone]
    simp only [not_or] at hnone
    exact ⟨rfl, hnone.2.1, hnone.2.2⟩

theorem fromJson_name {p q : PipelineConfig} {name key : String}
    (h : PipelineConfig.fromJson key (p.fields name) = .ok q) : q.pipeLineConfigName = key := by
  rw [fromJson_fields] at h
  split at h
  · cases h
    rfl
  · cases h

/-- What equals an element that is created under a name is saved with that name. -/
theorem objectName_of_same {source e element : Element}
    (htype : source.configType = e.configType)
    (hcreate : createFromElementByTypeName source.configType.text source.loadedName source.value =
      .ok element) (hsame : e.Same element) : e.objectName = source.loadedName := by
  have hempty : source.objectName = "" → source.loadedName = "" := by
    intro h
    rw [Element.loadedName, if_pos (.inl h)]
  rw [create_value] at hcreate
  cases source with
  | server t =>
    cases e with
    | server s => exact (hempty rfl).symm
    | pipeline p => cases htype
    | fakeCamera c => cases htype
  | fakeCamera d =>
    cases e with
    | server s => cases htype
    | pipeline p => cases htype
    | fakeCamera c => exact (hempty rfl).symm
  | pipeline q =>
    cases e with
    | server s => cases htype
    | fakeCamera c => cases htype
    | pipeline p =>
      cases hread : PipelineConfig.fromJson (Element.pipeline q).loadedName
          (q.fields q.pipeLineConfigName) with
      | error x =>
        simp only [hread] at hcreate
        cases hcreate
      | ok r =>
        simp only [hread] at hcreate
        cases hcreate
        have heq := (eq_true_iff.mp hsame.eq).1
        exact heq.trans (fromJson_name hread)

/-- Where the file gives the same storage, every element is read from its own field. -/
theorem own_source {loaded : Storage}
    (hparse : parseConfig (config.json timeText now) = .ok loaded)
    (hrel : ∀ key, Option.Rel Element.Same (config.storage.lookup key) (loaded.lookup key))
    {kv : ConfigHolderKey × Element} (h : kv ∈ config.storage) :
    ∃ element, kv.2.objectName = kv.1.2 ∧ kv.2.loadedName = kv.1.2 ∧
      createFromElementByTypeName kv.2.configType.text kv.1.2 kv.2.value = .ok element ∧
      kv.2.Same element ∧ (config.json timeText now).lookup kv.2.key = some kv.2.value := by
  -- every element is saved with its name in the storage
  have hnames : ∀ kv ∈ config.storage, kv.2.objectName = kv.1.2 := by
    intro kv h
    obtain ⟨source, hsource, element, htype, hname, hcreate, hsame, -⟩ :=
      exists_source hparse hrel h
    rw [← hname] at hcreate ⊢
    exact objectName_of_same (text_injective (htype.trans (config.typed kv h))) hcreate hsame
  have hself : ∀ kv ∈ config.storage, kv.1.2 ≠ "" → ∀ source ∈ config.storage,
      source.2.configType.text = kv.1.1 → source.2.loadedName = kv.1.2 → source = kv := by
    intro kv h hne source hsource htype hname
    have hloaded := (loadedName_of_ne (hname ▸ hne)).1
    apply storage_ext hsource h ((config.typed source hsource).trans htype)
    rw [← hnames source hsource, ← hloaded, hname]
  obtain ⟨source, hsource, element, htype, hname, hcreate, hsame, hlook⟩ :=
    exists_source hparse hrel h
  have heq : source = kv := by
    by_cases hne : kv.1.2 = ""
    · apply storage_ext hsource h ((config.typed source hsource).trans htype)
      rw [hne]
      by_contra hsourceName
      -- the name of the source would come back as it is
      obtain ⟨other, hother, -, htype', hname', -⟩ := exists_source hparse hrel hsource
      have hsame' := hself source hsource hsourceName other hother htype' hname'
      rw [hsame', hname, hne] at hname'
      exact hsourceName hname'.symm
    · exact hself kv h hne source hsource htype hname
  subst heq
  exact ⟨element, hnames source h, hname, hcreate, hsame, hlook⟩

theorem sorted_value (e : Element) :
    Json.SortedFields (objJson e.configType e.toJson e.objectName) := by
  apply sorted_objJson
  cases e with
  | server s =>
    show Json.SortedFields s.toJson
    repeat apply Json.SortedFields.setField
    exact sorted_nil
  | pipeline p => exact Json.SortedFields.foldl_setField _ _ _ sorted_nil
  | fakeCamera c =>
    show Json.SortedFields c.toJson
    repeat apply Json.SortedFields.setField
    exact sorted_nil

theorem type_of_objectName {e : Element} (h : e.objectName ≠ "") :
    e.configType = .pipelineConfig := by
  cases e with
  | server s => exact absurd rfl h
  | pipeline p => rfl
  | fakeCamera c => exact absurd rfl h

theorem type_of_value {e other : Element} (h : e.value = other.value) :
    e.configType = other.configType := by
  have htype := congrArg (fun v => Json.entry v typeAttr) h
  simp only [Element.value, entry_type, Except.ok.injEq, Json.string.injEq] at htype
  exact text_injective htype

theorem isMetaInfo_value (k : String) (e : Element) : isMetaInfo (k, e.value) = .ok false := by
  have hother : (e.configType.text == "meta_info") = false := by
    cases e <;> rfl
  rw [Element.value, isMetaInfo_objJson, hother]
  rfl

/-- The test of the loop that looks for `meta_info`. -/
def metaTest (kv : String × Json String) : Bool := (isMetaInfo kv).toOption == some true

theorem isMetaInfo_json {kv : String × Json String} (h : kv ∈ config.json timeText now) :
    isMetaInfo kv = .ok (metaTest kv) := by
  have hall : ∃ b, isMetaInfo kv = .ok b := by
    cases lookup_json (sorted_json.mem_iff.mp h) with
    | inl hl =>
      obtain ⟨source, -, -, hv⟩ := hl
      rw [show kv = (kv.1, kv.2) from rfl, ← hv]
      exact ⟨_, isMetaInfo_objJson _ _ _ _⟩
    | inr hr =>
      rw [show kv = (kv.1, kv.2) from rfl, hr.2.2]
      exact ⟨_, isMetaInfo_objJson _ _ _ _⟩
  obtain ⟨b, hb⟩ := hall
  rw [metaTest, hb]
  cases b with
  | true => rfl
  | false => rfl

theorem key_ne_metaInfo {node : Json String}
    (hfind : findMetaInfo (config.json timeText now) = .ok (some node)) {e : Element}
    (hlook : (config.json timeText now).lookup e.key = some e.value) : e.key ≠ "meta_info" := by
  rw [findMetaInfo_eq _ metaTest fun kv hkv => isMetaInfo_json hkv, Except.ok.injEq] at hfind
  obtain ⟨field, hfield, -⟩ := Option.map_eq_some_iff.mp hfind
  have hmem := List.mem_of_find?_eq_some hfield
  have htest := List.find?_some hfield
  have hmeta := isMetaInfo_json hmem
  rw [htest] at hmeta
  intro hkey
  cases lookup_json (sorted_json.mem_iff.mp hmem) with
  | inl hl =>
    obtain ⟨source, -, hk, hv⟩ := hl
    rw [show field = (field.1, field.2) from rfl, ← hv, isMetaInfo_value] at hmeta
    cases hmeta
  | inr hr =>
    obtain ⟨-, hk, hv⟩ := hr
    have hfound := sorted_json.mem_iff.mp hmem
    rw [hk, ← hkey, hlook, Option.some.injEq, hv] at hfound
    have htype := congrArg (fun v => Json.entry v typeAttr) hfound
    simp only [Element.value, entry_type, Except.ok.injEq, Json.string.injEq] at htype
    have hne := text_injective htype
    cases e <;> cases hne

theorem RoundTrips.restorable (h : RoundTrips timeText now config) : Restorable config := by
  obtain ⟨file, info, loaded, hsave, hload, hrel⟩ := h
  rw [Configuration.save] at hsave
  split at hsave
  · rename_i hvalid
    cases hsave
    obtain ⟨⟨node, hfind, -⟩, hparse⟩ := (load_eq_ok _ _ _).mp hload
    have hown := fun kv (hkv : kv ∈ config.storage) => own_source hparse hrel hkv
    have hnodes : ∀ kv ∈ config.storage, ∀ p, kv.2 = .pipeline p → NodesReadable p.nodes := by
      intro kv hkv p hp
      obtain ⟨element, -, -, hcreate, hsame, -⟩ := hown kv hkv
      rw [create_value, hp] at hcreate
      rw [hp] at hsame
      cases hread : PipelineConfig.fromJson kv.1.2 (p.fields p.pipeLineConfigName) with
      | error x =>
        simp only [hread] at hcreate
        cases hcreate
      | ok q =>
        simp only [hread] at hcreate
        cases hcreate
        exact (nodesReadable_of_same hread hsame).1
    constructor
    · intro kv hkv
      obtain ⟨-, hname, -⟩ := hown kv hkv
      exact hname
    · intro kv hkv
      obtain ⟨-, hname, hloadedName, -, -, hlook⟩ := hown kv hkv
      constructor
      · intro hdefault
        have hne : kv.2.loadedName ≠ "" := by
          rw [hloadedName, hdefault]
          decide
        exact (loadedName_of_ne hne).2.2 (hname.trans hdefault)
      · intro hmeta
        apply key_ne_metaInfo hfind hlook
        rw [Element.key, objKey, hname, hmeta]
        rfl
    · intro kv hkv other hother heq
      obtain ⟨-, hname, hloadedName, -, -, hlook⟩ := hown kv hkv
      obtain ⟨-, hname', -, -, -, hlook'⟩ := hown other hother
      have hne : kv.1.2 ≠ "" := heq ▸ text_ne_empty _
      have hown := (loadedName_of_ne (hloadedName ▸ hne)).2.1
      have htype : kv.2.configType = other.2.configType := by
        by_cases hempty : other.2.objectName = ""
        · have hkey : other.2.key = kv.2.key := by
            rw [Element.key, Element.key, objKey, objKey, if_pos hempty, if_neg (hname ▸ hne),
              hname, heq]
          rw [hkey, hlook, Option.some.injEq] at hlook'
          exact type_of_value hlook'
        · rw [type_of_objectName hempty, type_of_objectName (hname ▸ hne)]
      exact hown (by rw [hname, heq, htype])
    · exact hnodes
    · intro kv hkv
      obtain ⟨-, -, -, -, -, hlook⟩ := hown kv hkv
      have hwritable := ((validFields_iff sorted_json).mp hvalid _ _ hlook).2
      exact (writable_element (hnodes kv hkv)).mp
        ((validFields_iff (sorted_value kv.2)).mp hwritable)
  · cases hsave

section Restoring

variable (hrestorable : Restorable config)

include hrestorable

theorem Restorable.loadedName {kv : ConfigHolderKey × Element} (h : kv ∈ config.storage) :
    kv.2.loadedName = kv.1.2 := by
  have hname := hrestorable.names kv h
  rw [Element.loadedName, hname]
  split
  · rename_i hor
    rcases hor with hempty | htype | hdefault
    · exact hempty.symm
    · exact absurd htype (hrestorable.types kv h kv h)
    · exact absurd hdefault (hrestorable.reserved kv h).1
  · rfl

theorem Restorable.key_injective {kv other : ConfigHolderKey × Element} (h : kv ∈ config.storage)
    (hother : other ∈ config.storage) (hkey : kv.2.key = other.2.key) : kv = other := by
  have hname := hrestorable.names kv h
  have hname' := hrestorable.names other hother
  have hsame : kv.2.configType.text = other.2.configType.text ∧ kv.1.2 = other.1.2 := by
    rw [Element.key, Element.key, objKey, objKey, hname, hname'] at hkey
    split at hkey
    · rename_i hempty
      split at hkey
      · rename_i hempty'
        exact ⟨hkey, hempty.trans hempty'.symm⟩
      · exact absurd hkey.symm (hrestorable.types other hother kv h)
    · rename_i hne
      split at hkey
      · exact absurd hkey (hrestorable.types kv h other hother)
      · rename_i hne'
        rw [type_of_objectName (hname ▸ hne), type_of_objectName (hname' ▸ hne')]
        exact ⟨rfl, hkey⟩
  apply storage_ext h hother _ hsame.2
  rw [config.typed kv h, config.typed other hother, hsame.1]

theorem Restorable.lookup {kv : ConfigHolderKey × Element} (h : kv ∈ config.storage) :
    (config.json timeText now).lookup kv.2.key = some kv.2.value := by
  obtain ⟨other, hother, hkey, hlook⟩ := exists_lookup_json h
  rw [hlook, hrestorable.key_injective hother h hkey]

theorem Restorable.key_ne_metaInfo {kv : ConfigHolderKey × Element} (h : kv ∈ config.storage) :
    kv.2.key ≠ "meta_info" := by
  rw [Element.key, objKey, hrestorable.names kv h]
  split
  · cases kv.2 <;> simp [Element.configType, ConfigType.text]
  · exact (hrestorable.reserved kv h).2

theorem Restorable.elementOf {kv : ConfigHolderKey × Element} (h : kv ∈ config.storage) :
    ∃ element, Libcommon.elementOf (kv.2.key, kv.2.value) = .ok (some (kv.1, element)) ∧
      kv.2.Same element := by
  have hcreate : ∃ element, createFromElementByTypeName kv.2.configType.text kv.1.2 kv.2.value =
      .ok element ∧ kv.2.Same element := by
    rw [create_value]
    cases he : kv.2 with
    | server s => exact ⟨.server s, rfl, rfl⟩
    | fakeCamera c => exact ⟨.fakeCamera c, rfl, rfl⟩
    | pipeline p =>
      obtain ⟨q, hread, hsame⟩ := (hrestorable.nodes kv h p he).same p.pipeLineConfigName
      have hname : p.pipeLineConfigName = kv.1.2 := by
        have hobject := hrestorable.names kv h
        rwa [he] at hobject
      refine ⟨.pipeline q, ?_, hsame⟩
      simp only [← hname, hread]
      rfl
  obtain ⟨element, hok, hsame⟩ := hcreate
  refine ⟨element, ?_, hsame⟩
  rw [elementOf_element, hrestorable.loadedName h, hok, ← config.typed kv h]
  rfl

theorem Restorable.lookup_metaInfo : (config.json timeText now).lookup "meta_info" =
    some (.object (objJson .metaInfo (MetaInfo.toJson timeText
      { config.info with lastModificationTime := now }) "")) := by
  cases hlook : (config.json timeText now).lookup "meta_info" with
  | none =>
    have hnone := (Json.lookup_foldl_setField_none config.storage (fun kv => kv.2.key)
      (fun kv => kv.2.value) hlook).2
    have hsome : (fabricsToJson [] .metaInfo (MetaInfo.toJson timeText
        { config.info with lastModificationTime := now }) "").lookup "meta_info" = some _ :=
      Json.lookup_setField_self _ _ _
    rw [hsome] at hnone
    cases hnone
  | some v =>
    cases lookup_json hlook with
    | inl hl =>
      obtain ⟨kv, hkv, hkey, -⟩ := hl
      exact absurd hkey (hrestorable.key_ne_metaInfo hkv)
    | inr hr => rw [hr.2.2]

theorem Restorable.found {field : String × Json String} (h : field ∈ config.json timeText now) :
    Libcommon.elementOf field = .ok (Libcommon.found field) ∧
      ∀ entry, Libcommon.found field = some entry → ∃ kv ∈ config.storage, kv.2.key = field.1 ∧
        kv.1 = entry.1 := by
  cases lookup_json (sorted_json.mem_iff.mp h) with
  | inl hl =>
    obtain ⟨kv, hkv, hkey, hvalue⟩ := hl
    obtain ⟨element, helement, -⟩ := hrestorable.elementOf hkv
    have hfield : field = (kv.2.key, kv.2.value) := Prod.ext hkey.symm hvalue.symm
    rw [hfield, Libcommon.found, helement]
    refine ⟨rfl, ?_⟩
    intro entry hentry
    cases hentry
    exact ⟨kv, hkv, rfl, rfl⟩
  | inr hr =>
    obtain ⟨-, hkey, hvalue⟩ := hr
    rw [Libcommon.found, show field = (field.1, field.2) from rfl, hkey, hvalue, elementOf_metaInfo]
    refine ⟨rfl, ?_⟩
    intro entry hentry
    cases hentry

theorem Restorable.findMetaInfo : Libcommon.findMetaInfo (config.json timeText now) =
    .ok (some (.object (objJson .metaInfo (MetaInfo.toJson timeText
      { config.info with lastModificationTime := now }) ""))) := by
  have hmem : ("meta_info", .object (objJson .metaInfo (MetaInfo.toJson timeText
      { config.info with lastModificationTime := now }) "")) ∈ config.json timeText now :=
    sorted_json.mem_iff.mpr hrestorable.lookup_metaInfo
  rw [findMetaInfo_eq _ metaTest fun kv hkv => isMetaInfo_json hkv]
  cases hfind : (config.json timeText now).find? metaTest with
  | none =>
    have htest := List.find?_eq_none.mp hfind _ hmem
    rw [metaTest, isMetaInfo_objJson] at htest
    exact absurd rfl htest
  | some field =>
    have hfield := List.mem_of_find?_eq_some hfind
    have htest := isMetaInfo_json hfield
    rw [List.find?_some hfind] at htest
    cases lookup_json (sorted_json.mem_iff.mp hfield) with
    | inl hl =>
      obtain ⟨kv, -, -, hvalue⟩ := hl
      rw [show field = (field.1, field.2) from rfl, ← hvalue, isMetaInfo_value] at htest
      cases htest
    | inr hr =>
      rw [Option.map_some, hr.2.2]

theorem Restorable.writable (htext : ∀ t, validText (timeText t) = true) :
    Writable (config.json timeText now) := by
  intro k v hlook
  cases lookup_json hlook with
  | inl hl =>
    obtain ⟨kv, hkv, rfl, rfl⟩ := hl
    have htexts := hrestorable.texts kv hkv
    constructor
    · rw [Element.key, objKey]
      split
      · cases kv.2.configType <;> decide +kernel
      · rename_i hne
        cases he : kv.2 with
        | server s => exact absurd (he ▸ rfl) hne
        | fakeCamera c => exact absurd (he ▸ rfl) hne
        | pipeline p =>
          rw [he] at htexts
          exact htexts.1
    · exact (validFields_iff (sorted_value kv.2)).mpr
        ((writable_element (hrestorable.nodes kv hkv)).mpr htexts)
  | inr hr =>
    obtain ⟨-, rfl, rfl⟩ := hr
    exact ⟨by decide +kernel, validJson_metaInfo htext config.comment⟩

theorem Restorable.roundTrips (htext : ∀ t, validText (timeText t) = true) :
    RoundTrips timeText now config := by
  have hparse : parseConfig (config.json timeText now) =
      .ok (((config.json timeText now).filterMap Libcommon.found).foldl insertNew []) :=
    (parseConfig_eq_ok _ _).mpr ⟨fun field hfield => (hrestorable.found hfield).1, rfl⟩
  have hload : load (.object (config.json timeText now)) =
      .ok ({ config.info with lastModificationTime := now }, _) :=
    (load_eq_ok _ _ _).mpr ⟨⟨_, hrestorable.findMetaInfo, metaInfo_fromJson _ _⟩, hparse⟩
  have hsave : config.save timeText now = .ok (.object (config.json timeText now)) :=
    if_pos ((validFields_iff sorted_json).mpr (hrestorable.writable htext))
  refine ⟨_, _, _, hsave, hload, ?_⟩
  -- no two fields are put under one key
  have hnodup : (((config.json timeText now).filterMap Libcommon.found).map Prod.fst).Nodup := by
    rw [List.nodup_iff_pairwise_ne, List.pairwise_map, List.pairwise_filterMap]
    apply sorted_json.imp_of_mem
    intro a b ha hb hlt x hx y hy heq
    obtain ⟨kv, hkv, hkey, hfst⟩ := (hrestorable.found ha).2 x hx
    obtain ⟨other, hother, hkey', hfst'⟩ := (hrestorable.found hb).2 y hy
    have hsame : kv = other :=
      List.inj_on_of_nodup_map config.nodup hkv hother (by rw [hfst, hfst', heq])
    rw [← hkey, ← hkey', hsame] at hlt
    exact String.lt_irrefl _ hlt
  intro key
  rw [lookup_foldl_insertNew]
  show Option.Rel _ _ (((config.json timeText now).filterMap Libcommon.found).lookup key)
  cases hlook : config.storage.lookup key with
  | some e =>
    have hmem := mem_of_lookup hlook
    obtain ⟨element, helement, hsame⟩ := hrestorable.elementOf hmem
    have hfield : (e.key, e.value) ∈ config.json timeText now :=
      sorted_json.mem_iff.mpr (hrestorable.lookup hmem)
    have hfound : (key, element) ∈ (config.json timeText now).filterMap Libcommon.found := by
      refine List.mem_filterMap.mpr ⟨_, hfield, ?_⟩
      rw [Libcommon.found, helement]
      rfl
    rw [lookup_of_mem hnodup hfound]
    exact .some hsame
  | none =>
    cases hother : ((config.json timeText now).filterMap Libcommon.found).lookup key with
    | none => exact .none
    | some element =>
      obtain ⟨field, hfield, hentry⟩ := List.mem_filterMap.mp (mem_of_lookup hother)
      obtain ⟨kv, hkv, -, hfst⟩ := (hrestorable.found hfield).2 _ hentry
      have hsome : config.storage.lookup kv.1 = some kv.2 := lookup_of_mem config.nodup hkv
      rw [hfst, hlook] at hsome
      cases hsome

end Restoring

/-- A configuration comes back from its file exactly if it can be restored. -/
theorem roundTrips_iff_restorable (timeText : ℤ → String) (htext : ∀ t, validText (timeText t) = true)
    (now : ℤ) (config : Configuration) : RoundTrips timeText now config ↔ Restorable config :=
  ⟨RoundTrips.restorable, fun h => h.roundTrips htext⟩

end RoundTrips

/-- Two settings that `Load` takes from a file under names of their own. -/
def twoServers : Configuration where
  info := ⟨0, 0, ""⟩
  storage := [(("server_settings", "main"), .server ⟨"127.0.0.1", 4444, 20, "s", 1, "b", 1⟩),
    (("server_settings", "backup"), .server ⟨"127.0.0.1", 4445, 20, "s", 1, "b", 1⟩)]
  nodup := by decide
  typed := by
    intro kv hkv
    simp only [List.mem_cons, List.not_mem_nil, or_false] at hkv
    rcases hkv with rfl | rfl <;> rfl
  comment := by decide +kernel

/-- Both are saved without their names, the second in place of the first. -/
theorem not_roundTrips_twoServers :
    ¬ RoundTrips (fun _ => "01/01/70 00:00:00.0") 0 twoServers := by
  intro h
  have hname := h.restorable.names (("server_settings", "main"),
    .server ⟨"127.0.0.1", 4444, 20, "s", 1, "b", 1⟩) List.mem_cons_self
  exact absurd hname (by decide)

/-- Settings, and a pipeline of two nodes. -/
def oneLine : Configuration where
  info := ⟨0, 0, ""⟩
  storage := [(("server_settings", ""), .server ⟨"127.0.0.1", 4444, 20, "s", 1, "b", 1⟩),
    (("pipeline_settings", "line"), .pipeline ⟨[⟨0, "camera", ["-n", "2"], .first, 1, "first"⟩,
      ⟨1, "saver", [], .last, -1, "second"⟩], "line"⟩)]
  nodup := by decide
  typed := by
    intro kv hkv
    simp only [List.mem_cons, List.not_mem_nil, or_false] at hkv
    rcases hkv with rfl | rfl <;> rfl
  comment := by decide +kernel

theorem nodesReadable_oneLine : NodesReadable [⟨0, "camera", ["-n", "2"], .first, 1, "first"⟩,
    ⟨1, "saver", [], .last, -1, "second"⟩] where
  names := by decide
  attrs := by simp [typeAttr, nameAttr]
  ids := by decide
  range := by simp
  last := by simp

theorem restorable_oneLine : Restorable oneLine where
  names := by simp [oneLine, Element.objectName]
  reserved := by simp [oneLine, defaultNameAttr]
  types := by simp [oneLine, Element.configType, ConfigType.text]
  nodes := by
    intro kv hkv p hp
    simp only [oneLine, List.mem_cons, List.not_mem_nil, or_false] at hkv
    cases hkv with
    | inl h =>
      rw [h] at hp
      cases hp
    | inr h =>
      rw [h] at hp
      cases hp
      exact nodesReadable_oneLine
  texts := by
    have hserver : Element.TextsValid (.server ⟨"127.0.0.1", 4444, 20, "s", 1, "b", 1⟩) := by
      show validText _ ∧ validText _ ∧ validText _
      decide +kernel
    have hpipeline : Element.TextsValid (.pipeline ⟨[⟨0, "camera", ["-n", "2"], .first, 1, "first"⟩,
        ⟨1, "saver", [], .last, -1, "second"⟩], "line"⟩) := by
      simp only [Element.TextsValid, PipelineNodeConfig.TextsValid, List.forall_mem_cons]
      decide +kernel
    intro kv hkv
    simp only [oneLine, List.mem_cons, List.not_mem_nil, or_false] at hkv
    cases hkv with
    | inl h => exact h ▸ hserver
    | inr h => exact h ▸ hpipeline

theorem roundTrips_oneLine : RoundTrips (fun _ => "01/01/70 00:00:00.0") 0 oneLine :=
  (roundTrips_iff_restorable _ (fun _ => by decide +kernel) 0 oneLine).mpr restorable_oneLine

end TmkDcl.Libcommon
