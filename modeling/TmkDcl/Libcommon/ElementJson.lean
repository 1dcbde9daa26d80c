import Mathlib.Data.List.Pairwise
import Mathlib.Data.List.Perm.Subperm
import TmkDcl.Libcommon.Elements

/-!
# Elements as JSON (ServerSettings.cpp, PipelineConfig.cpp, FakeCameraConfig.cpp)

What each element reads back from what it has written, and whether it can be written at all.
-/

namespace TmkDcl.Libcommon

open TmkDcl (Json JsonError)

/-! ### Elements one by one -/

section Elements

theorem ofInt_toNat_uint32 (n : UInt32) : UInt32.ofInt (n.toNat : ℤ) = n := by
  have hmod : ((n.toNat : ℤ) % 2 ^ 32).toNat = n.toNat := by
    have hlt := n.toNat_lt
    omega
  rw [UInt32.ofInt, hmod, UInt32.ofNat_toNat]

theorem ofInt_toNat_uint64 (n : UInt64) : UInt64.ofInt (n.toNat : ℤ) = n := by
  have hmod : ((n.toNat : ℤ) % 2 ^ 64).toNat = n.toNat := by
    have hlt := n.toNat_lt
    omega
  rw [UInt64.ofInt, hmod, UInt64.ofNat_toNat]

theorem entry_setField_self (key : String) (value : Json String) (fields : Fields) :
    (Json.object (Json.setField key value fields)).entry key = .ok value := by
  simp [Json.entry]

theorem entry_setField_of_ne {key other : String} (h : other ≠ key) (value : Json String)
    (fields : Fields) : (Json.object (Json.setField key value fields)).entry other =
      (Json.object fields).entry other := by
  simp [Json.entry, Json.lookup_setField_of_ne h]

theorem server_fromJson (s : ServerSettings) (name : String) :
    ServerSettings.fromJson (.object (objJson .serverSettings s.toJson name)) = .ok s := by
  simp only [ServerSettings.fromJson, objJson, typeAttr, nameAttr, ServerSettings.toJson,
    entry_setField_of_ne, entry_setField_self, ne_eq, String.reduceEq, not_false_eq_true]
  show Except.ok (⟨s.address, UInt32.ofInt s.port.toNat, Int32.ofInt s.commandQueueSize.toInt,
    s.shmemDataName, UInt64.ofInt s.shmemDataSize.toNat, s.boostSegmentName,
    UInt64.ofInt s.minimalBoostSize.toNat⟩ : ServerSettings) = _
  rw [ofInt_toNat_uint32, ofInt_toNat_uint64, ofInt_toNat_uint64, Int32.ofInt_toInt]

theorem fakeCamera_fromJson (c : FakeCameraConfig) (name : String) :
    FakeCameraConfig.fromJson (.object (objJson .fakeCameraConfig c.toJson name)) = .ok c := by
  simp only [FakeCameraConfig.fromJson, objJson, typeAttr, nameAttr, FakeCameraConfig.toJson,
    entry_setField_of_ne, entry_setField_self, ne_eq, String.reduceEq, not_false_eq_true]
  show Except.ok (⟨c.listeningAddress, UInt32.ofInt c.port.toNat, c.imagesPath⟩ :
    FakeCameraConfig) = _
  rw [ofInt_toNat_uint32]

theorem ofText_text (type : PipelineNodeType) : PipelineNodeType.ofText type.text = some type := by
  cases type <;> rfl

theorem mapM_getString (texts : List String) :
    (texts.map (Json.string (σ := String))).mapM Json.getString = .ok texts := by
  induction texts with
  | nil => rfl
  | cons t texts ih =>
    rw [List.map_cons, List.mapM_cons, ih]
    rfl

theorem node_fromJson (node : PipelineNodeConfig) :
    PipelineNodeConfig.fromJson node.nodeName (.object node.toJson) = .ok node := by
  simp only [PipelineNodeConfig.fromJson, PipelineNodeConfig.toJson,
    entry_setField_of_ne, entry_setField_self, ne_eq, String.reduceEq, not_false_eq_true]
  simp only [Json.getInt, Json.getString, bind, Except.bind, pure, Except.pure, ofText_text,
    mapM_getString, Int32.ofInt_toInt]

theorem metaInfo_fromJson (timeText : ℤ → String) (info : MetaInfo) :
    MetaInfo.fromJson (.object (objJson .metaInfo (info.toJson timeText) "")) = .ok info := by
  have htime : ∀ t, timeFromJson (.object (timeJson timeText t)) = .ok t := by
    intro t
    simp only [timeFromJson, timeJson, entry_setField_of_ne, entry_setField_self, ne_eq,
      String.reduceEq, not_false_eq_true]
    show Except.ok (t.tdiv 1000000000 * 1000000000 + (t - t.tdiv 1000000000 * 1000000000)) = _
    congr 1
    omega
  simp only [MetaInfo.fromJson, objJson, typeAttr, nameAttr, MetaInfo.toJson,
    entry_setField_of_ne, entry_setField_self, ne_eq, String.reduceEq, not_false_eq_true]
  show (do
    let creationTime ← timeFromJson (.object (timeJson timeText info.creationTime))
    let lastModificationTime ← timeFromJson (.object (timeJson timeText info.lastModificationTime))
    .ok (⟨creationTime, lastModificationTime, info.comment⟩ : MetaInfo)) = Except.ok info
  rw [htime, htime]
  rfl

end Elements

/-! ### Pipelines -/

/-- The nodes come back from a file: they are told apart by their names, which are not those of
the two attributes, and they have the ids that `fromJson` demands. -/
structure NodesReadable (nodes : List PipelineNodeConfig) : Prop where
  names : (nodes.map PipelineNodeConfig.nodeName).Nodup
  attrs : ∀ node ∈ nodes, node.nodeName ≠ typeAttr ∧ node.nodeName ≠ nameAttr
  ids : (nodes.map PipelineNodeConfig.id).Nodup
  range : ∀ node ∈ nodes, 0 ≤ node.id.toInt ∧ node.id.toInt < nodes.length
  last : ∀ node ∈ nodes, node.id.toInt + 1 = nodes.length → node.nextId.toInt = -1

/-- Equal by `operator==`, and with the same nodes. -/
structure PipelineConfig.Same (p q : PipelineConfig) : Prop where
  eq : p.eq q = true
  nodes : q.nodes.Perm p.nodes

section Pipelines

variable {p : PipelineConfig} {name key : String} {nodes : List PipelineNodeConfig}
  {kv : String × Json String}

/-- The node that a field stands for. -/
def nodeOf (kv : String × Json String) : Option PipelineNodeConfig :=
  match kv.2 with
  | .object fields => (PipelineNodeConfig.fromJson kv.1 (.object fields)).toOption
  | _ => none

/-- A field is no object or describes a node. -/
def FieldReadable (kv : String × Json String) : Prop :=
  ∀ fields, kv.2 = .object fields → (nodeOf kv).isSome

theorem nodeOf_object (key : String) (fields : Fields) : nodeOf (key, .object fields) =
    (PipelineNodeConfig.fromJson key (.object fields)).toOption := rfl

theorem addNode_object (key : String) (fields : Fields) : addNode nodes (key, .object fields) =
    match PipelineNodeConfig.fromJson key (.object fields) with
    | .ok node => .ok (nodes ++ [node])
    | .error _ => .error .badConfig := rfl

theorem addNode_readable (h : FieldReadable kv) :
    addNode nodes kv = .ok (nodes ++ (nodeOf kv).toList) := by
  obtain ⟨key, value⟩ := kv
  cases value with
  | object fields =>
    have hsome := h fields rfl
    rw [nodeOf_object] at hsome
    rw [addNode_object, nodeOf_object]
    cases hread : PipelineNodeConfig.fromJson key (.object fields) with
    | error e =>
      rw [hread] at hsome
      cases hsome
    | ok node => rfl
  | _ => exact congrArg Except.ok (List.append_nil nodes).symm

theorem foldlM_addNode_readable {l : Fields} (h : ∀ kv ∈ l, FieldReadable kv) :
    l.foldlM addNode nodes = .ok (nodes ++ l.filterMap nodeOf) := by
  induction l generalizing nodes with
  | nil =>
    rw [List.filterMap_nil, List.append_nil]
    rfl
  | cons kv l ih =>
    rw [List.foldlM_cons, addNode_readable (h kv List.mem_cons_self)]
    show l.foldlM addNode _ = _
    rw [ih fun kv' hkv' => h kv' (List.mem_cons_of_mem _ hkv'), List.append_assoc,
      List.filterMap_cons]
    cases nodeOf kv with
    | none => rfl
    | some node => rfl

def PipelineConfig.fields (p : PipelineConfig) (name : String) : Fields :=
  objJson .pipelineConfig p.toJson name

/-- The nodes that are read back. -/
def PipelineConfig.readNodes (p : PipelineConfig) (name : String) : List PipelineNodeConfig :=
  (p.fields name).filterMap nodeOf

theorem sorted_fields : Json.SortedFields (p.fields name) := by
  apply Json.SortedFields.setField
  apply Json.SortedFields.setField
  exact Json.SortedFields.foldl_setField _ _ _ List.Pairwise.nil

theorem mem_fields (h : kv ∈ p.fields name) :
    kv = (nameAttr, .string (if name = "" then defaultNameAttr else name)) ∨
    kv = (typeAttr, .string "pipeline_settings") ∨
    ∃ node ∈ p.nodes, node.nodeName = kv.1 ∧ kv.1 ≠ typeAttr ∧ kv.1 ≠ nameAttr ∧
      kv.2 = .object node.toJson := by
  obtain ⟨k, v⟩ := kv
  have hlook := sorted_fields.mem_iff.mp h
  by_cases hname : k = nameAttr
  · rw [hname, PipelineConfig.fields, objJson, Json.lookup_setField_self, Option.some.injEq] at hlook
    exact .inl (Prod.ext hname hlook.symm)
  · rw [PipelineConfig.fields, objJson, Json.lookup_setField_of_ne hname] at hlook
    by_cases htype : k = typeAttr
    · rw [htype, Json.lookup_setField_self, Option.some.injEq] at hlook
      exact .inr (.inl (Prod.ext htype hlook.symm))
    · rw [Json.lookup_setField_of_ne htype] at hlook
      cases Json.lookup_foldl_setField _ _ _ hlook with
      | inr hr => cases hr.2
      | inl hl =>
        obtain ⟨node, hnode, hk, rfl⟩ := hl
        exact .inr (.inr ⟨node, (List.mem_insertionSort _).mp hnode, hk, htype, hname, rfl⟩)

theorem nodeOf_mem_fields (h : kv ∈ p.fields name) :
    (nodeOf kv = none ∧ ∀ fields, kv.2 ≠ .object fields) ∨
    ∃ node ∈ p.nodes, nodeOf kv = some node ∧ node.nodeName = kv.1 ∧ kv.1 ≠ typeAttr ∧
      kv.1 ≠ nameAttr := by
  rcases mem_fields h with heq | heq | ⟨node, hnode, hk, htype, hname, hv⟩
  · rw [heq]
    exact .inl ⟨rfl, fun _ hv => nomatch hv⟩
  · rw [heq]
    exact .inl ⟨rfl, fun _ hv => nomatch hv⟩
  · have hread : PipelineNodeConfig.fromJson kv.1 (.object node.toJson) = .ok node :=
      hk ▸ node_fromJson node
    refine .inr ⟨node, hnode, ?_, hk, htype, hname⟩
    simp only [nodeOf, hv, hread]
    rfl

theorem fields_readable : ∀ kv ∈ p.fields name, FieldReadable kv := by
  intro kv h fields hv
  cases nodeOf_mem_fields h with
  | inl hl => exact absurd hv (hl.2 fields)
  | inr hr =>
    obtain ⟨node, -, hsome, -⟩ := hr
    rw [hsome]
    rfl

theorem fromJson_fields (key : String) : PipelineConfig.fromJson key (p.fields name) =
    if nodesAccepted (sortNodes (p.readNodes name)) then .ok ⟨sortNodes (p.readNodes name), key⟩
    else .error .badConfig := by
  have hloop : (p.fields name).foldlM addNode [] = .ok ([] ++ p.readNodes name) :=
    foldlM_addNode_readable fields_readable
  rw [PipelineConfig.fromJson, hloop]
  rfl

theorem nodeOf_fields (h : kv ∈ p.fields name)
    {node : PipelineNodeConfig} (hnode : nodeOf kv = some node) :
    node ∈ p.nodes ∧ node.nodeName = kv.1 ∧ kv.1 ≠ typeAttr ∧ kv.1 ≠ nameAttr := by
  cases nodeOf_mem_fields h with
  | inl hl =>
    rw [hl.1] at hnode
    cases hnode
  | inr hr =>
    obtain ⟨other, hother, hsome, hkey⟩ := hr
    rw [hsome, Option.some.injEq] at hnode
    exact hnode ▸ ⟨hother, hkey⟩

theorem mem_readNodes {node : PipelineNodeConfig} (h : node ∈ p.readNodes name) :
    node ∈ p.nodes ∧ node.nodeName ≠ typeAttr ∧ node.nodeName ≠ nameAttr := by
  obtain ⟨kv, hkv, hnode⟩ := List.mem_filterMap.mp h
  obtain ⟨hmem, hk, htype, hname⟩ := nodeOf_fields hkv hnode
  exact ⟨hmem, hk ▸ htype, hk ▸ hname⟩

theorem nodup_readNodes : ((p.readNodes name).map PipelineNodeConfig.nodeName).Nodup := by
  rw [List.nodup_iff_pairwise_ne, List.pairwise_map, PipelineConfig.readNodes,
    List.pairwise_filterMap]
  apply sorted_fields.imp_of_mem
  intro a b ha hb hlt x hx y hy
  rw [(nodeOf_fields ha hx).2.1, (nodeOf_fields hb hy).2.1]
  intro heq
  rw [heq] at hlt
  exact String.lt_irrefl _ hlt

theorem exists_readNode {node : PipelineNodeConfig} (h : node ∈ p.nodes)
    (htype : node.nodeName ≠ typeAttr) (hname : node.nodeName ≠ nameAttr) :
    ∃ other ∈ p.readNodes name, other.nodeName = node.nodeName := by
  obtain ⟨other, -, hk, hlook⟩ := Json.exists_lookup_foldl_setField (sortNodes p.nodes)
    PipelineNodeConfig.nodeName (fun node => Json.object node.toJson) []
    ((List.mem_insertionSort _).mpr h)
  have hfield : (p.fields name).lookup node.nodeName = some (.object other.toJson) := by
    rw [PipelineConfig.fields, objJson, Json.lookup_setField_of_ne hname,
      Json.lookup_setField_of_ne htype]
    exact hlook
  refine ⟨other, List.mem_filterMap.mpr ⟨_, sorted_fields.mem_iff.mpr hfield, ?_⟩, hk⟩
  have hread : PipelineNodeConfig.fromJson node.nodeName (.object other.toJson) = .ok other :=
    hk ▸ node_fromJson other
  simp only [nodeOf, hread]
  rfl

theorem sortNodes_perm (nodes : List PipelineNodeConfig) : (sortNodes nodes).Perm nodes :=
  List.perm_insertionSort _ _

theorem sortNodes_sorted (nodes : List PipelineNodeConfig) :
    (sortNodes nodes).Pairwise fun a b => a.id.toInt ≤ b.id.toInt := by
  have : Std.Total fun a b : PipelineNodeConfig => a.id.toInt ≤ b.id.toInt :=
    ⟨fun a b => Int.le_total _ _⟩
  have : IsTrans PipelineNodeConfig fun a b => a.id.toInt ≤ b.id.toInt :=
    ⟨fun a b c => Int.le_trans⟩
  exact List.pairwise_insertionSort _ nodes

theorem eq_iff {a b : PipelineNodeConfig} (h : a.eq b) : a.nodeName = b.nodeName := by
  simp only [PipelineNodeConfig.eq, Bool.and_eq_true, beq_iff_eq] at h
  exact h.1.1.1.1.2

theorem eq_refl (a : PipelineNodeConfig) : a.eq a := by
  simp [PipelineNodeConfig.eq]

/-- The nodes read are those of the pipeline, if they are distinguished by names that can be keys. -/
theorem readNodes_perm (hnames : (p.nodes.map PipelineNodeConfig.nodeName).Nodup)
    (hattrs : ∀ node ∈ p.nodes, node.nodeName ≠ typeAttr ∧ node.nodeName ≠ nameAttr) :
    (p.readNodes name).Perm p.nodes := by
  apply (List.perm_ext_iff_of_nodup nodup_readNodes.of_map hnames.of_map).mpr
  intro node
  constructor
  · exact fun h => (mem_readNodes h).1
  · intro h
    obtain ⟨other, hother, hk⟩ : ∃ other ∈ p.readNodes name, other.nodeName = node.nodeName :=
      exists_readNode h (hattrs node h).1 (hattrs node h).2
    have heq : other = node := List.inj_on_of_nodup_map hnames (mem_readNodes hother).1 h hk
    exact heq ▸ hother

theorem toInt_injective : Function.Injective Int32.toInt := fun _ _ => Int32.toInt_inj.mp

/-- Ids below their number that are all different are all there. -/
theorem NodesReadable.exists_id (h : NodesReadable nodes) {i : ℤ} (h0 : 0 ≤ i)
    (hi : i < nodes.length) : ∃ node ∈ nodes, node.id.toInt = i := by
  have hnodup : (nodes.map fun node => node.id.toInt).Nodup := by
    have hmap := h.ids.map toInt_injective
    rwa [List.map_map] at hmap
  have hsubset : (nodes.map fun node => node.id.toInt) ⊆
      (List.range nodes.length).map Int.ofNat := by
    intro j hj
    obtain ⟨node, hnode, rfl⟩ := List.mem_map.mp hj
    obtain ⟨hle, hlt⟩ := h.range node hnode
    exact List.mem_map.mpr ⟨node.id.toInt.toNat, List.mem_range.mpr (by omega),
      Int.toNat_of_nonneg hle⟩
  have hperm := (List.Nodup.subperm hnodup hsubset).perm_of_length_le (by simp)
  have hmem : i ∈ (List.range nodes.length).map Int.ofNat :=
    List.mem_map.mpr ⟨i.toNat, List.mem_range.mpr (by omega), Int.toNat_of_nonneg h0⟩
  exact List.mem_map.mp (hperm.mem_iff.mpr hmem)

theorem id_le_getLast {sorted : List PipelineNodeConfig}
    (hsorted : sorted.Pairwise fun a b => a.id.toInt ≤ b.id.toInt) {node : PipelineNodeConfig}
    (h : node ∈ sorted) : node.id.toInt ≤ (sorted.getLast (List.ne_nil_of_mem h)).id.toInt :=
  hsorted.rel_getLast_of_rel_getLast_getLast h (Int.le_refl _)

theorem head_id_le {x node : PipelineNodeConfig} {rest : List PipelineNodeConfig}
    (hsorted : (x :: rest).Pairwise fun a b => a.id.toInt ≤ b.id.toInt)
    (h : node ∈ x :: rest) : x.id.toInt ≤ node.id.toInt := by
  cases List.mem_cons.mp h with
  | inl heq => rw [heq]
  | inr hmem => exact (List.pairwise_cons.mp hsorted).1 node hmem

theorem NodesReadable.accepted (h : NodesReadable nodes) {sorted : List PipelineNodeConfig}
    (hperm : sorted.Perm nodes) (hsorted : sorted.Pairwise fun a b => a.id.toInt ≤ b.id.toInt) :
    nodesAccepted sorted = true := by
  cases sorted with
  | nil => rfl
  | cons x rest =>
    have hlen : nodes.length = (x :: rest).length := hperm.length_eq.symm
    have hpos : 0 < (x :: rest).length := Nat.succ_pos _
    have hne : x :: rest ≠ [] := List.cons_ne_nil x rest
    have hfinal := h.range _ (hperm.mem_iff.mp (List.getLast_mem hne))
    obtain ⟨first, hfirst, hzero⟩ := h.exists_id (Int.le_refl 0) (by omega)
    obtain ⟨final, hmem, hend⟩ := h.exists_id (i := nodes.length - 1) (by omega) (by omega)
    have hx : x.id.toInt = 0 := by
      have hle := head_id_le hsorted (hperm.mem_iff.mpr hfirst)
      have hge := (h.range x (hperm.mem_iff.mp List.mem_cons_self)).1
      omega
    have hlast : ((x :: rest).getLast hne).id.toInt + 1 = nodes.length := by
      have hle := id_le_getLast hsorted (hperm.mem_iff.mpr hmem)
      omega
    have hnext := h.last _ (hperm.mem_iff.mp (List.getLast_mem hne)) hlast
    simp only [nodesAccepted, List.head?_cons, List.getLast?_eq_getLast_of_ne_nil hne,
      Bool.and_eq_true, beq_iff_eq]
    refine ⟨⟨hx, ?_⟩, hnext⟩
    omega

theorem mem_sortNodes {node : PipelineNodeConfig} : node ∈ sortNodes nodes ↔ node ∈ nodes :=
  (sortNodes_perm nodes).mem_iff

theorem eq_true_iff {q : PipelineConfig} : p.eq q = true ↔
    p.pipeLineConfigName = q.pipeLineConfigName ∧ p.nodes.length = q.nodes.length ∧
      ∀ node ∈ p.nodes, ∃ first, (q.nodes.find? fun other => other.id == node.id) = some first ∧
        first.eq node = true := by
  simp only [PipelineConfig.eq, Bool.and_eq_true, beq_iff_eq, List.all_eq_true, and_assoc]
  apply and_congr_right
  intro _
  apply and_congr_right
  intro _
  apply forall₂_congr
  intro node _
  cases q.nodes.find? fun other => other.id == node.id with
  | none => simp
  | some first => simp

theorem find_id (hids : (nodes.map PipelineNodeConfig.id).Nodup) {node : PipelineNodeConfig}
    (h : node ∈ nodes) : (nodes.find? fun other => other.id == node.id) = some node := by
  cases hfind : nodes.find? fun other => other.id == node.id with
  | none => simpa using List.find?_eq_none.mp hfind node h
  | some x =>
    have hid : x.id = node.id := by simpa using List.find?_some hfind
    rw [List.inj_on_of_nodup_map hids (List.mem_of_find?_eq_some hfind) h hid]

theorem NodesReadable.same (h : NodesReadable p.nodes) (name : String) :
    ∃ q, PipelineConfig.fromJson p.pipeLineConfigName (p.fields name) = .ok q ∧ p.Same q := by
  have hperm : (sortNodes (p.readNodes name)).Perm p.nodes :=
    (sortNodes_perm _).trans (readNodes_perm h.names h.attrs)
  refine ⟨_, by rw [fromJson_fields, if_pos (h.accepted hperm (sortNodes_sorted _))], ?_, hperm⟩
  refine eq_true_iff.mpr ⟨rfl, hperm.length_eq.symm, ?_⟩
  intro node hnode
  have hids : ((sortNodes (p.readNodes name)).map PipelineNodeConfig.id).Nodup :=
    (hperm.map _).nodup_iff.mpr h.ids
  exact ⟨node, find_id hids (hperm.mem_iff.mpr hnode), eq_refl node⟩

theorem nodesReadable_of_same {q : PipelineConfig}
    (hread : PipelineConfig.fromJson key (p.fields name) = .ok q) (hsame : p.Same q) :
    NodesReadable p.nodes ∧ p.pipeLineConfigName = key := by
  rw [fromJson_fields] at hread
  split at hread
  · rename_i haccepted
    cases hread
    obtain ⟨hname, hlen, hfound⟩ := eq_true_iff.mp hsame.eq
    have hperm : (p.readNodes name).Perm p.nodes := (sortNodes_perm _).symm.trans hsame.nodes
    have hnames : (p.nodes.map PipelineNodeConfig.nodeName).Nodup :=
      (hperm.map _).nodup_iff.mp nodup_readNodes
    have hids : (p.nodes.map PipelineNodeConfig.id).Nodup := by
      apply List.Nodup.map_on _ hnames.of_map
      intro x hx y hy heq
      obtain ⟨first, hfirst, hxeq⟩ := hfound x hx
      obtain ⟨other, hother, hyeq⟩ := hfound y hy
      rw [← heq, hfirst, Option.some.injEq] at hother
      rw [← hother] at hyeq
      exact List.inj_on_of_nodup_map hnames hx hy ((eq_iff hxeq).symm.trans (eq_iff hyeq))
    have hbounds : ∀ node ∈ p.nodes, (0 ≤ node.id.toInt ∧ node.id.toInt < p.nodes.length) ∧
        (node.id.toInt + 1 = p.nodes.length → node.nextId.toInt = -1) := by
      intro node hnode
      have hmem : node ∈ sortNodes (p.readNodes name) := hsame.nodes.mem_iff.mpr hnode
      have hsorted := sortNodes_sorted (p.readNodes name)
      generalize sortNodes (p.readNodes name) = sorted at haccepted hlen hmem hsorted hsame
      cases sorted with
      | nil => cases hmem
      | cons x rest =>
        have hne : x :: rest ≠ [] := List.cons_ne_nil x rest
        have hcount : p.nodes.length = (x :: rest).length := hlen
        simp only [nodesAccepted, List.head?_cons, List.getLast?_eq_getLast_of_ne_nil hne,
          Bool.and_eq_true, beq_iff_eq] at haccepted
        obtain ⟨⟨hzero, hspan⟩, hnext⟩ := haccepted
        have hlow := head_id_le hsorted hmem
        have hhigh := id_le_getLast hsorted hmem
        refine ⟨⟨by omega, by omega⟩, ?_⟩
        intro hend
        have hid : node.id = ((x :: rest).getLast hne).id := toInt_injective (by omega)
        rw [List.inj_on_of_nodup_map hids hnode
          (hsame.nodes.mem_iff.mp (List.getLast_mem hne)) hid]
        exact hnext
    refine ⟨⟨hnames, ?_, hids, ?_, ?_⟩, hname⟩
    · intro node hnode
      exact (mem_readNodes (hperm.mem_iff.mpr hnode)).2
    · exact fun node hnode => (hbounds node hnode).1
    · exact fun node hnode => (hbounds node hnode).2
  · cases hread

end Pipelines

/-! ### Texts -/

def PipelineNodeConfig.TextsValid (node : PipelineNodeConfig) : Prop :=
  validText node.nodeName ∧ validText node.path ∧ ∀ s ∈ node.launchParameters, validText s

/-- Every text of an element can be written. -/
def Element.TextsValid : Element → Prop
  | .server s => validText s.address ∧ validText s.shmemDataName ∧ validText s.boostSegmentName
  | .pipeline p => validText p.pipeLineConfigName ∧ ∀ node ∈ p.nodes, node.TextsValid
  | .fakeCamera c => validText c.listeningAddress ∧ validText c.imagesPath

section Texts

/-- Every field that can be found can be written. -/
def Writable (fields : Fields) : Prop :=
  ∀ k v, fields.lookup k = some v → validText k = true ∧ validJson v = true

theorem validFields_iff {fields : Fields} (h : Json.SortedFields fields) :
    validFields fields = true ↔ Writable fields := by
  have hmem : validFields fields = true ↔
      ∀ kv ∈ fields, validText kv.1 = true ∧ validJson kv.2 = true := by
    clear h
    induction fields with
    | nil => simp [validFields]
    | cons kv rest ih =>
      obtain ⟨k, v⟩ := kv
      simp only [validFields, Bool.and_eq_true, ih, List.forall_mem_cons]
  rw [hmem]
  constructor
  · intro hall k v hlook
    exact hall (k, v) (h.mem_iff.mpr hlook)
  · intro hall kv hkv
    exact hall kv.1 kv.2 (h.mem_iff.mp hkv)

theorem writable_nil : Writable [] := by
  intro k v h
  cases h

theorem writable_setField {fields : Fields} {key : String} {value : Json String}
    (hnew : fields.lookup key = none) : Writable (Json.setField key value fields) ↔
      (validText key = true ∧ validJson value = true) ∧ Writable fields := by
  constructor
  · intro h
    refine ⟨h key value (Json.lookup_setField_self _ _ _), ?_⟩
    intro k v hlook
    have hne : k ≠ key := by
      intro heq
      rw [heq, hnew] at hlook
      cases hlook
    exact h k v (by rw [Json.lookup_setField_of_ne hne]; exact hlook)
  · intro h k v hlook
    by_cases hk : k = key
    · rw [hk, Json.lookup_setField_self, Option.some.injEq] at hlook
      rw [hk, ← hlook]
      exact h.1
    · rw [Json.lookup_setField_of_ne hk] at hlook
      exact h.2 k v hlook

theorem validItems_strings (texts : List String) :
    validItems (texts.map Json.string) = true ↔ ∀ s ∈ texts, validText s = true := by
  induction texts with
  | nil => simp [validItems]
  | cons t texts ih => simp [validItems, validJson, ih]

theorem sorted_nil : Json.SortedFields (σ := String) [] := List.Pairwise.nil

theorem validJson_node (node : PipelineNodeConfig) : validJson (.object node.toJson) = true ↔
    validText node.path ∧ ∀ s ∈ node.launchParameters, validText s := by
  have hsorted : Json.SortedFields node.toJson := by
    repeat apply Json.SortedFields.setField
    exact sorted_nil
  have hkeys : validText "id" ∧ validText "name" ∧ validText "next_id" ∧ validText "type" ∧
      validText "parameters" := by decide +kernel
  have htype : validText node.nodeType.text = true := by
    cases node.nodeType <;> decide +kernel
  obtain ⟨hid, hname, hnext, htypeKey, hparams⟩ := hkeys
  rw [validJson, validFields_iff hsorted, PipelineNodeConfig.toJson,
    writable_setField (by simp [Json.lookup_setField_of_ne]),
    writable_setField (by simp [Json.lookup_setField_of_ne]),
    writable_setField (by simp [Json.lookup_setField_of_ne]),
    writable_setField (by simp [Json.lookup_setField_of_ne]), writable_setField rfl]
  simp only [hid, hname, hnext, htypeKey, hparams, htype, validJson, validItems_strings,
    writable_nil, true_and, and_true]
  exact and_comm

theorem sorted_objJson {type : ConfigType} {object : Fields} (h : Json.SortedFields object)
    (name : String) : Json.SortedFields (objJson type object name) :=
  (h.setField _ _).setField _ _

/-- An object that `ToJson` makes can be written exactly if its own fields can, and the name. -/
theorem writable_objJson {type : ConfigType} {object : Fields}
    (htype : object.lookup typeAttr = none) (hname : object.lookup nameAttr = none)
    (name : String) : Writable (objJson type object name) ↔ validText name ∧ Writable object := by
  have hkeys : validText typeAttr ∧ validText nameAttr ∧ validText defaultNameAttr := by
    decide +kernel
  have htext : validText type.text = true := by
    cases type <;> decide +kernel
  have hvalue : validText (if name = "" then defaultNameAttr else name) = true ↔
      validText name := by
    by_cases h : name = ""
    · rw [if_pos h, h]
      exact iff_of_true hkeys.2.2 (by decide +kernel)
    · rw [if_neg h]
  have hnew : (Json.setField typeAttr (.string type.text) object).lookup nameAttr = none := by
    rw [Json.lookup_setField_of_ne (by decide), hname]
  rw [objJson, writable_setField hnew, writable_setField htype]
  simp only [validJson, hkeys.1, hkeys.2.1, htext, hvalue, true_and]

theorem writable_server (s : ServerSettings) : Writable s.toJson ↔
    validText s.address ∧ validText s.shmemDataName ∧ validText s.boostSegmentName := by
  have hkeys : validText "address" ∧ validText "port" ∧ validText "command_queue_size" ∧
      validText "shmem_data_name" ∧ validText "shmem_data_size" ∧
      validText "boost_segment_name" ∧ validText "minimal_boost_size" := by decide +kernel
  obtain ⟨h1, h2, h3, h4, h5, h6, h7⟩ := hkeys
  rw [ServerSettings.toJson,
    writable_setField (by simp [Json.lookup_setField_of_ne]),
    writable_setField (by simp [Json.lookup_setField_of_ne]),
    writable_setField (by simp [Json.lookup_setField_of_ne]),
    writable_setField (by simp [Json.lookup_setField_of_ne]),
    writable_setField (by simp [Json.lookup_setField_of_ne]),
    writable_setField (by simp [Json.lookup_setField_of_ne]), writable_setField rfl]
  simp only [h1, h2, h3, h4, h5, h6, h7, validJson, writable_nil, true_and, and_true]
  constructor
  · intro h
    exact ⟨h.2.2, h.2.1, h.1⟩
  · intro h
    exact ⟨h.2.2, h.2.1, h.1⟩

theorem writable_fakeCamera (c : FakeCameraConfig) : Writable c.toJson ↔
    validText c.listeningAddress ∧ validText c.imagesPath := by
  have hkeys : validText "address" ∧ validText "port" ∧ validText "images_path" := by
    decide +kernel
  obtain ⟨h1, h2, h3⟩ := hkeys
  rw [FakeCameraConfig.toJson, writable_setField (by simp [Json.lookup_setField_of_ne]),
    writable_setField (by simp [Json.lookup_setField_of_ne]), writable_setField rfl]
  simp only [h1, h2, h3, validJson, writable_nil, true_and, and_true]
  exact and_comm

theorem writable_pipeline {p : PipelineConfig} (h : NodesReadable p.nodes) :
    Writable p.toJson ↔ ∀ node ∈ p.nodes, node.TextsValid := by
  constructor
  · intro hall node hnode
    obtain ⟨other, hother, hk, hlook⟩ := Json.exists_lookup_foldl_setField (sortNodes p.nodes)
      PipelineNodeConfig.nodeName (fun node => Json.object node.toJson) [] (mem_sortNodes.mpr hnode)
    obtain rfl : other = node :=
      List.inj_on_of_nodup_map h.names (mem_sortNodes.mp hother) hnode hk
    obtain ⟨hkey, hvalue⟩ := hall _ _ hlook
    exact ⟨hkey, (validJson_node other).mp hvalue⟩
  · intro hall k v hlook
    cases Json.lookup_foldl_setField _ _ _ hlook with
    | inr hr => cases hr.2
    | inl hl =>
      obtain ⟨node, hnode, rfl, rfl⟩ := hl
      obtain ⟨hkey, hrest⟩ := hall node (mem_sortNodes.mp hnode)
      exact ⟨hkey, (validJson_node node).mpr hrest⟩

theorem lookup_pipeline_none {p : PipelineConfig} {key : String}
    (h : ∀ node ∈ p.nodes, node.nodeName ≠ key) : p.toJson.lookup key = none := by
  cases hlook : p.toJson.lookup key with
  | none => rfl
  | some v =>
    cases Json.lookup_foldl_setField _ _ _ hlook with
    | inr hr => cases hr.2
    | inl hl =>
      obtain ⟨node, hnode, hk, -⟩ := hl
      exact absurd hk (h node (mem_sortNodes.mp hnode))

theorem writable_element {e : Element}
    (h : ∀ p, e = .pipeline p → NodesReadable p.nodes) :
    Writable (objJson e.configType e.toJson e.objectName) ↔ e.TextsValid := by
  have hempty : validText "" = true := by decide +kernel
  cases e with
  | server s =>
    have hname : s.toJson.lookup nameAttr = none := by
      simp [ServerSettings.toJson, nameAttr, Json.lookup_setField_of_ne]
    have htype : s.toJson.lookup typeAttr = none := by
      simp [ServerSettings.toJson, typeAttr, Json.lookup_setField_of_ne]
    show Writable (objJson .serverSettings s.toJson "") ↔ _
    rw [writable_objJson htype hname, writable_server]
    simp [hempty, Element.TextsValid]
  | pipeline p =>
    have hreadable := h p rfl
    have hname := lookup_pipeline_none fun node hnode => (hreadable.attrs node hnode).2
    have htype := lookup_pipeline_none fun node hnode => (hreadable.attrs node hnode).1
    show Writable (objJson .pipelineConfig p.toJson p.pipeLineConfigName) ↔ _
    rw [writable_objJson htype hname, writable_pipeline hreadable]
    rfl
  | fakeCamera c =>
    have hname : c.toJson.lookup nameAttr = none := by
      simp [FakeCameraConfig.toJson, nameAttr, Json.lookup_setField_of_ne]
    have htype : c.toJson.lookup typeAttr = none := by
      simp [FakeCameraConfig.toJson, typeAttr, Json.lookup_setField_of_ne]
    show Writable (objJson .fakeCameraConfig c.toJson "") ↔ _
    rw [writable_objJson htype hname, writable_fakeCamera]
    simp [hempty, Element.TextsValid]

theorem validJson_time {timeText : ℤ → String} (htext : ∀ t, validText (timeText t) = true) (t : ℤ) :
    validJson (.object (timeJson timeText t)) = true := by
  have hsorted : Json.SortedFields (timeJson timeText t) :=
    ((sorted_nil.setField _ _).setField _ _).setField _ _
  have hkeys : validText "sec" ∧ validText "nsec" ∧ validText "readable" := by decide +kernel
  obtain ⟨h1, h2, h3⟩ := hkeys
  rw [validJson, validFields_iff hsorted, timeJson,
    writable_setField (by simp [Json.lookup_setField_of_ne]),
    writable_setField (by simp [Json.lookup_setField_of_ne]), writable_setField rfl]
  simp only [h1, h2, h3, validJson, writable_nil, htext, and_self]

theorem validJson_metaInfo {timeText : ℤ → String} (htext : ∀ t, validText (timeText t) = true)
    {info : MetaInfo} (hcomment : validText info.comment = true) :
    validJson (.object (objJson .metaInfo (info.toJson timeText) "")) = true := by
  have hsorted : Json.SortedFields (info.toJson timeText) :=
    ((sorted_nil.setField _ _).setField _ _).setField _ _
  have hkeys : validText "creationTime" ∧ validText "lastModificationTime" ∧
      validText "comment" ∧ validText "" := by decide +kernel
  have hname : (info.toJson timeText).lookup nameAttr = none := by
    simp [MetaInfo.toJson, nameAttr, Json.lookup_setField_of_ne]
  have htype : (info.toJson timeText).lookup typeAttr = none := by
    simp [MetaInfo.toJson, typeAttr, Json.lookup_setField_of_ne]
  obtain ⟨h1, h2, h3, h4⟩ := hkeys
  rw [validJson, validFields_iff (sorted_objJson hsorted ""), writable_objJson htype hname,
    MetaInfo.toJson, writable_setField (by simp [Json.lookup_setField_of_ne]),
    writable_setField (by simp [Json.lookup_setField_of_ne]), writable_setField rfl]
  simp only [h1, h2, h3, h4, validJson_time htext, writable_nil, and_self, true_and, and_true]
  rw [validJson]
  exact hcomment

end Texts

end TmkDcl.Libcommon
