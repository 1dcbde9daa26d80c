import TmkDcl.Libcommon.ElementJson

/-!
# The nodes of a pipeline document (PipelineConfig.cpp)

`PipelineConfig::fromJson` on a document of any kind, and the check of the ids that it makes. A
number with a fraction stands for the integer that `get` converts it to.
-/

namespace TmkDcl.Libcommon

open TmkDcl (Json JsonError)

/-- `PipelineConfig::fromJson`. There is a `key()` only for the fields of an object. -/
def PipelineConfig.fromDocument (key : String) : Json String → Except LoadError PipelineConfig
  | .object fields => PipelineConfig.fromJson key fields
  | .null => .ok ⟨[], key⟩
  | .array [] => .ok ⟨[], key⟩
  | _ => .error (.json .type)

/-- What `PipelineConfig::toJson` returns: without a node, no field is assigned to. -/
def PipelineConfig.document (p : PipelineConfig) : Json String :=
  if p.nodes.isEmpty then .null else .object p.toJson

/-- Sorted by id, with the ids from 0 on, and no node after the last. -/
structure PipelineConfig.Complete (p : PipelineConfig) : Prop where
  ids : p.nodes.map (fun node => node.id.toInt) = (List.range p.nodes.length).map Int.ofNat
  last : ∀ node, p.nodes.getLast? = some node → node.nextId.toInt = -1

/-! ### The nodes of a document -/

/-- The fields that `fromJson` goes through. -/
def documentFields : Json String → Fields
  | .object fields => fields
  | _ => []

/-- The nodes that a document describes. -/
def documentNodes (document : Json String) : List PipelineNodeConfig :=
  (documentFields document).filterMap nodeOf

/-- The ids reach from 0 to one less than the number of nodes, and the last of the nodes with the
largest id has no next. -/
structure ExtremesFit (nodes : List PipelineNodeConfig) : Prop where
  range : ∀ node ∈ nodes, 0 ≤ node.id.toInt ∧ node.id.toInt < nodes.length
  first : nodes ≠ [] → ∃ node ∈ nodes, node.id.toInt = 0
  last : nodes ≠ [] → ∃ node,
    (nodes.filter fun node => node.id.toInt + 1 == (nodes.length : ℤ)).getLast? = some node ∧
      node.nextId.toInt = -1

section Reading

variable {nodes : List PipelineNodeConfig} {kv : String × Json String}

theorem addNode_unreadable (h : ¬ FieldReadable kv) : addNode nodes kv = .error .badConfig := by
  obtain ⟨key, value⟩ := kv
  unfold FieldReadable at h
  push Not at h
  obtain ⟨fields, hvalue, hnone⟩ := h
  obtain rfl : value = .object fields := hvalue
  rw [nodeOf_object] at hnone
  rw [addNode_object]
  cases hread : PipelineNodeConfig.fromJson key (.object fields) with
  | error e => rfl
  | ok node =>
    rw [hread] at hnone
    exact absurd rfl hnone

theorem foldlM_addNode_unreadable (nodes : List PipelineNodeConfig) {l : Fields}
    (h : ∃ kv ∈ l, ¬ FieldReadable kv) :
    ∃ e, l.foldlM addNode nodes = .error e := by
  induction l generalizing nodes with
  | nil =>
    obtain ⟨kv, hkv, -⟩ := h
    cases hkv
  | cons kv l ih =>
    rw [List.foldlM_cons]
    by_cases hkv : FieldReadable kv
    · rw [addNode_readable hkv]
      apply ih
      obtain ⟨kv', hmem, hnot⟩ := h
      cases List.mem_cons.mp hmem with
      | inl heq => exact absurd (heq ▸ hkv) hnot
      | inr hmem => exact ⟨kv', hmem, hnot⟩
    · rw [addNode_unreadable hkv]
      exact ⟨_, rfl⟩

end Reading

/-! ### The check of the ids -/

section Extremes

variable {nodes : List PipelineNodeConfig}

/-- Nodes with one id stay in their order. -/
theorem filter_sortNodes (nodes : List PipelineNodeConfig) (i : ℤ) :
    (sortNodes nodes).filter (fun node => node.id.toInt == i) =
      nodes.filter fun node => node.id.toInt == i := by
  have hinsert : ∀ (a : PipelineNodeConfig) (l : List PipelineNodeConfig),
      (l.orderedInsert (fun a b => a.id.toInt ≤ b.id.toInt) a).filter
        (fun node => node.id.toInt == i) =
      (a :: l).filter fun node => node.id.toInt == i := by
    intro a l
    induction l with
    | nil => rfl
    | cons b l ih =>
      rw [List.orderedInsert_cons]
      split
      · rfl
      · rename_i hlt
        rw [List.filter_cons, ih]
        simp only [List.filter_cons, beq_iff_eq]
        split <;> split
        · omega
        · rfl
        · rfl
        · rfl
  induction nodes with
  | nil => rfl
  | cons a l ih =>
    show ((sortNodes l).orderedInsert _ a).filter _ = _
    rw [hinsert, List.filter_cons, List.filter_cons, ih]

theorem getLast?_filter_of_last {α : Type} {l : List α} (hne : l ≠ []) {p : α → Bool}
    (h : p (l.getLast hne) = true) : (l.filter p).getLast? = some (l.getLast hne) := by
  conv_lhs => rw [← List.dropLast_append_getLast hne]
  rw [List.filter_append, List.filter_cons_of_pos h, List.filter_nil, List.getLast?_concat]

theorem sortNodes_eq_nil : sortNodes nodes = [] ↔ nodes = [] := by
  rw [← List.length_eq_zero_iff, ← List.length_eq_zero_iff, (sortNodes_perm nodes).length_eq]

theorem nodesAccepted_iff : nodesAccepted (sortNodes nodes) = true ↔ ExtremesFit nodes := by
  have hperm := sortNodes_perm nodes
  have hsorted := sortNodes_sorted nodes
  have hlen := hperm.length_eq
  have hfilter := filter_sortNodes nodes (nodes.length - 1)
  have hkey : (fun node : PipelineNodeConfig => node.id.toInt + 1 == (nodes.length : ℤ)) =
      fun node => node.id.toInt == (nodes.length : ℤ) - 1 := by
    funext node
    rw [Bool.eq_iff_iff, beq_iff_eq, beq_iff_eq]
    omega
  cases hcase : sortNodes nodes with
  | nil =>
    obtain rfl := sortNodes_eq_nil.mp hcase
    refine iff_of_true rfl ⟨?_, fun h => absurd rfl h, fun h => absurd rfl h⟩
    intro node hnode
    cases hnode
  | cons x rest =>
    rw [hcase] at hperm hsorted hlen hfilter
    have hne : x :: rest ≠ [] := List.cons_ne_nil x rest
    have hpos : (x :: rest).length = rest.length + 1 := rfl
    have hnodes : nodes ≠ [] := by
      intro h
      rw [h] at hlen
      cases hlen
    simp only [nodesAccepted, List.head?_cons, List.getLast?_eq_getLast_of_ne_nil hne,
      Bool.and_eq_true, beq_iff_eq, and_assoc]
    constructor
    · intro h
      obtain ⟨hzero, hspan, hnext⟩ := h
      refine ⟨?_, fun _ => ⟨x, hperm.mem_iff.mp List.mem_cons_self, hzero⟩, ?_⟩
      · intro node hnode
        have hmem := hperm.mem_iff.mpr hnode
        have hlow := head_id_le hsorted hmem
        have hhigh := id_le_getLast hsorted hmem
        omega
      · intro _
        refine ⟨(x :: rest).getLast hne, ?_, hnext⟩
        rw [hkey, ← hfilter]
        apply getLast?_filter_of_last hne
        rw [beq_iff_eq]
        omega
    · intro h
      obtain ⟨first, hfirst, hzero⟩ := h.first hnodes
      obtain ⟨final, hfinal, hnext⟩ := h.last hnodes
      have hmem : final ∈ nodes ∧ final.id.toInt + 1 = nodes.length := by
        have := List.mem_filter.mp (List.mem_of_getLast? hfinal)
        rwa [beq_iff_eq] at this
      have hlow := head_id_le hsorted (hperm.mem_iff.mpr hfirst)
      have hx := (h.range x (hperm.mem_iff.mp List.mem_cons_self)).1
      have hhigh := id_le_getLast hsorted (hperm.mem_iff.mpr hmem.1)
      have hlast := (h.range _ (hperm.mem_iff.mp (List.getLast_mem hne))).2
      have hend : (((x :: rest).getLast hne).id.toInt == (nodes.length : ℤ) - 1) = true := by
        have := hmem.2
        rw [beq_iff_eq]
        omega
      have hkept := getLast?_filter_of_last hne
        (p := fun node => node.id.toInt == (nodes.length : ℤ) - 1) hend
      rw [beq_iff_eq] at hend
      refine ⟨by omega, by omega, ?_⟩
      rw [hkey, ← hfilter, hkept, Option.some.injEq] at hfinal
      rw [hfinal]
      exact hnext

end Extremes

/-! ### Complete pipelines -/

section Complete

variable {p : PipelineConfig} {nodes : List PipelineNodeConfig}

theorem fromDocument_eq (key : String) (document : Json String) {q : PipelineConfig}
    (h : PipelineConfig.fromDocument key document = .ok q) :
    (∀ kv ∈ documentFields document, FieldReadable kv) ∧ ExtremesFit (documentNodes document) ∧
      q = ⟨sortNodes (documentNodes document), key⟩ := by
  have hempty : ExtremesFit [] :=
    nodesAccepted_iff.mp rfl
  have hnone : ∀ kv ∈ ([] : Fields), FieldReadable kv := fun _ hkv => absurd hkv List.not_mem_nil
  cases document with
  | null => exact ⟨hnone, hempty, (Except.ok.inj h).symm⟩
  | bool b => cases h
  | number n => cases h
  | string s => cases h
  | array items =>
    cases items with
    | nil => exact ⟨hnone, hempty, (Except.ok.inj h).symm⟩
    | cons item items => cases h
  | object fields =>
    have hload : PipelineConfig.fromJson key fields = .ok q := h
    unfold PipelineConfig.fromJson at hload
    have hall : ∀ kv ∈ fields, FieldReadable kv := by
      by_contra hnot
      push Not at hnot
      obtain ⟨e, he⟩ := foldlM_addNode_unreadable [] hnot
      rw [he] at hload
      cases hload
    rw [foldlM_addNode_readable hall] at hload
    replace hload : (if nodesAccepted (sortNodes (fields.filterMap nodeOf))
      then Except.ok (⟨sortNodes (fields.filterMap nodeOf), key⟩ : PipelineConfig)
      else .error LoadError.badConfig) = .ok q := hload
    split at hload
    · rename_i haccepted
      exact ⟨hall, nodesAccepted_iff.mp haccepted, (Except.ok.inj hload).symm⟩
    · cases hload

theorem fromJson_of_fit (key : String) {fields : Fields} (hread : ∀ kv ∈ fields, FieldReadable kv)
    (hfit : ExtremesFit (fields.filterMap nodeOf)) :
    PipelineConfig.fromJson key fields = .ok ⟨sortNodes (fields.filterMap nodeOf), key⟩ := by
  rw [PipelineConfig.fromJson, foldlM_addNode_readable hread]
  show (if nodesAccepted (sortNodes (fields.filterMap nodeOf)) then _ else _) = _
  rw [if_pos (nodesAccepted_iff.mpr hfit)]
  rfl

theorem complete_of_nodup {key : String} (hfit : ExtremesFit nodes)
    (hids : (nodes.map PipelineNodeConfig.id).Nodup) :
    PipelineConfig.Complete ⟨sortNodes nodes, key⟩ := by
  have hperm := sortNodes_perm nodes
  have hlen := hperm.length_eq
  have hnodup : ((sortNodes nodes).map fun node => node.id.toInt).Nodup := by
    have hmap := ((hperm.map PipelineNodeConfig.id).nodup_iff.mpr hids).map toInt_injective
    rwa [List.map_map] at hmap
  have hsubset : ((sortNodes nodes).map fun node => node.id.toInt) ⊆
      (List.range (sortNodes nodes).length).map Int.ofNat := by
    intro j hj
    obtain ⟨node, hnode, rfl⟩ := List.mem_map.mp hj
    obtain ⟨hle, hlt⟩ := hfit.range node (hperm.mem_iff.mp hnode)
    exact List.mem_map.mpr ⟨node.id.toInt.toNat, List.mem_range.mpr (by omega),
      Int.toNat_of_nonneg hle⟩
  have hrange := (List.Nodup.subperm hnodup hsubset).perm_of_length_le (by simp)
  have hsorted : ((sortNodes nodes).map fun node => node.id.toInt).Pairwise (· ≤ ·) :=
    List.pairwise_map.mpr (sortNodes_sorted nodes)
  have hincreasing : ((List.range (sortNodes nodes).length).map Int.ofNat).Pairwise (· ≤ ·) := by
    rw [List.pairwise_map]
    exact List.pairwise_lt_range.imp fun hlt => Int.ofNat_le.mpr (Nat.le_of_lt hlt)
  refine ⟨hrange.eq_of_pairwise (fun _ _ _ _ => Int.le_antisymm) hsorted hincreasing, ?_⟩
  intro node hlast
  have haccepted := nodesAccepted_iff.mpr hfit
  unfold nodesAccepted at haccepted
  rw [show (sortNodes nodes).getLast? = some node from hlast] at haccepted
  cases hhead : (sortNodes nodes).head? with
  | none =>
    rw [List.head?_eq_none_iff.mp hhead] at hlast
    cases hlast
  | some x =>
    simp only [hhead, Bool.and_eq_true, beq_iff_eq] at haccepted
    exact haccepted.2

theorem PipelineConfig.Complete.pairwise (h : p.Complete) :
    p.nodes.Pairwise fun a b => a.id.toInt < b.id.toInt := by
  have hrange : ((List.range p.nodes.length).map Int.ofNat).Pairwise (· < ·) := by
    rw [List.pairwise_map]
    exact List.pairwise_lt_range.imp fun hlt => Int.ofNat_lt.mpr hlt
  rw [← h.ids] at hrange
  exact List.pairwise_map.mp hrange

theorem PipelineConfig.Complete.nodup (h : p.Complete) :
    (p.nodes.map PipelineNodeConfig.id).Nodup := by
  rw [List.nodup_iff_pairwise_ne, List.pairwise_map]
  apply h.pairwise.imp
  intro a b hlt heq
  rw [heq] at hlt
  exact Int.lt_irrefl _ hlt

theorem PipelineConfig.Complete.exists_id (h : p.Complete) {i : ℕ} (hi : i < p.nodes.length) :
    ∃ node ∈ p.nodes, node.id.toInt = i := by
  have hmem : (i : ℤ) ∈ p.nodes.map fun node => node.id.toInt := by
    rw [h.ids]
    exact List.mem_map.mpr ⟨i, List.mem_range.mpr hi, rfl⟩
  exact List.mem_map.mp hmem

theorem PipelineConfig.Complete.extremesFit (h : p.Complete) : ExtremesFit p.nodes := by
  have hrange : ∀ node ∈ p.nodes, 0 ≤ node.id.toInt ∧ node.id.toInt < p.nodes.length := by
    intro node hnode
    have hmem : node.id.toInt ∈ p.nodes.map fun node => node.id.toInt := List.mem_map_of_mem hnode
    rw [h.ids] at hmem
    obtain ⟨i, hi, heq⟩ := List.mem_map.mp hmem
    have hlt := List.mem_range.mp hi
    rw [← heq]
    exact ⟨Int.natCast_nonneg i, Int.ofNat_lt.mpr hlt⟩
  refine ⟨hrange, ?_, ?_⟩
  · intro hne
    exact h.exists_id (List.length_pos_iff.mpr hne)
  · intro hne
    have hpos := List.length_pos_iff.mpr hne
    obtain ⟨final, hfinal, hend⟩ := h.exists_id (i := p.nodes.length - 1) (by omega)
    have hsorted := h.pairwise.imp fun hlt => Int.le_of_lt hlt
    have hhigh := id_le_getLast hsorted hfinal
    have hlt := (hrange _ (List.getLast_mem hne)).2
    refine ⟨p.nodes.getLast hne, ?_, h.last _ (List.getLast?_eq_getLast_of_ne_nil hne)⟩
    apply getLast?_filter_of_last hne
    rw [beq_iff_eq]
    omega

/-- There is one order in which the nodes can be written. -/
theorem PipelineConfig.Complete.sortNodes_eq (h : p.Complete) (hperm : nodes.Perm p.nodes) :
    sortNodes nodes = p.nodes := by
  apply ((sortNodes_perm _).trans hperm).eq_of_pairwise _ (sortNodes_sorted _)
    (h.pairwise.imp fun hlt => Int.le_of_lt hlt)
  intro a b ha hb hab hba
  have hmem := hperm.mem_iff.mp (mem_sortNodes.mp ha)
  exact List.inj_on_of_nodup_map h.nodup hmem hb (toInt_injective (Int.le_antisymm hab hba))

end Complete

/-! ### Reading back -/

section ReadingBack

variable {p : PipelineConfig}

theorem sorted_toJson (p : PipelineConfig) : Json.SortedFields p.toJson :=
  Json.SortedFields.foldl_setField _ _ _ List.Pairwise.nil

theorem mem_toJson {kv : String × Json String} (h : kv ∈ p.toJson) :
    ∃ node ∈ p.nodes, kv = (node.nodeName, .object node.toJson) := by
  obtain ⟨key, value⟩ := kv
  cases Json.lookup_foldl_setField _ _ _ ((sorted_toJson p).mem_iff.mp h) with
  | inr hr => cases hr.2
  | inl hl =>
    obtain ⟨node, hnode, rfl, rfl⟩ := hl
    exact ⟨node, mem_sortNodes.mp hnode, rfl⟩

theorem nodeOf_toJson (node : PipelineNodeConfig) :
    nodeOf (node.nodeName, .object node.toJson) = some node := by
  rw [nodeOf_object, node_fromJson]
  rfl

theorem readable_toJson : ∀ kv ∈ p.toJson, FieldReadable kv := by
  intro kv hkv fields _
  obtain ⟨node, -, rfl⟩ := mem_toJson hkv
  rw [nodeOf_toJson]
  rfl

theorem filterMap_toJson (hnames : (p.nodes.map PipelineNodeConfig.nodeName).Nodup) :
    (p.toJson.filterMap nodeOf).Perm p.nodes := by
  have hnodup : ((p.toJson.filterMap nodeOf).map PipelineNodeConfig.nodeName).Nodup := by
    rw [List.nodup_iff_pairwise_ne, List.pairwise_map, List.pairwise_filterMap]
    apply (sorted_toJson p).imp_of_mem
    intro a b ha hb hlt x hx y hy heq
    obtain ⟨u, -, rfl⟩ := mem_toJson ha
    obtain ⟨v, -, rfl⟩ := mem_toJson hb
    rw [nodeOf_toJson, Option.some.injEq] at hx hy
    rw [← hx, ← hy] at heq
    exact String.lt_irrefl _ (heq ▸ hlt)
  apply (List.perm_ext_iff_of_nodup hnodup.of_map hnames.of_map).mpr
  intro node
  constructor
  · intro h
    obtain ⟨kv, hkv, hnode⟩ := List.mem_filterMap.mp h
    obtain ⟨other, hother, rfl⟩ := mem_toJson hkv
    rw [nodeOf_toJson, Option.some.injEq] at hnode
    exact hnode ▸ hother
  · intro h
    obtain ⟨other, hother, hk, hlook⟩ := Json.exists_lookup_foldl_setField (sortNodes p.nodes)
      PipelineNodeConfig.nodeName (fun node => Json.object node.toJson) [] (mem_sortNodes.mpr h)
    obtain rfl : other = node :=
      List.inj_on_of_nodup_map hnames (mem_sortNodes.mp hother) h hk
    exact List.mem_filterMap.mpr ⟨_, (sorted_toJson p).mem_iff.mpr hlook, nodeOf_toJson other⟩

theorem PipelineConfig.Complete.fromDocument (h : p.Complete)
    (hnames : (p.nodes.map PipelineNodeConfig.nodeName).Nodup) (key : String) :
    PipelineConfig.fromDocument key p.document = .ok ⟨p.nodes, key⟩ := by
  unfold PipelineConfig.document
  split
  · rename_i hempty
    rw [List.isEmpty_iff.mp hempty]
    rfl
  · have hsort := h.sortNodes_eq (filterMap_toJson hnames)
    have hfit : ExtremesFit (p.toJson.filterMap nodeOf) := by
      rw [← nodesAccepted_iff, hsort, ← h.sortNodes_eq (List.Perm.refl _), nodesAccepted_iff]
      exact h.extremesFit
    show PipelineConfig.fromJson key p.toJson = _
    rw [fromJson_of_fit key readable_toJson hfit, hsort]

/-- A document that `fromJson` does not refuse leaves a complete pipeline if and only if no two of
its nodes have one id, and a complete pipeline whose nodes have different names is read back. -/
theorem fromDocument_complete (key : String) (document : Json String) :
    ((∀ p, PipelineConfig.fromDocument key document = .ok p → p.Complete) ↔
      ((∀ kv ∈ documentFields document, FieldReadable kv) → ExtremesFit (documentNodes document) →
        ((documentNodes document).map PipelineNodeConfig.id).Nodup)) ∧
    ∀ p : PipelineConfig, p.Complete → (p.nodes.map PipelineNodeConfig.nodeName).Nodup →
      PipelineConfig.fromDocument key p.document = .ok ⟨p.nodes, key⟩ := by
  refine ⟨?_, fun p h hnames => h.fromDocument hnames key⟩
  constructor
  · intro h hread hfit
    cases document with
    | object fields =>
      have hcomplete := h _ (fromJson_of_fit key hread hfit)
      exact ((sortNodes_perm _).map _).nodup_iff.mp hcomplete.nodup
    | _ => exact List.nodup_nil
  · intro h p hp
    obtain ⟨hread, hfit, rfl⟩ := fromDocument_eq key document hp
    exact complete_of_nodup hfit (h hread hfit)

/-- Four nodes with the ids 0, 1, 1 and 3. -/
def twiceOne : Json String :=
  .object [("a", .object (PipelineNodeConfig.toJson ⟨0, "", [], .first, 1, "a"⟩)),
    ("b", .object (PipelineNodeConfig.toJson ⟨1, "", [], .middle, 3, "b"⟩)),
    ("c", .object (PipelineNodeConfig.toJson ⟨1, "", [], .middle, 3, "c"⟩)),
    ("d", .object (PipelineNodeConfig.toJson ⟨3, "", [], .last, -1, "d"⟩))]

theorem twiceOne_accepted :
    ¬ ∀ p, PipelineConfig.fromDocument "" twiceOne = .ok p → p.Complete := by
  have hsome : (documentFields twiceOne).all (fun kv => (nodeOf kv).isSome) = true := by
    decide +kernel
  have hread : ∀ kv ∈ documentFields twiceOne, FieldReadable kv :=
    fun kv hkv _ _ => List.all_eq_true.mp hsome kv hkv
  have haccepted : nodesAccepted (sortNodes (documentNodes twiceOne)) = true := by decide +kernel
  have htwice : ¬ ((sortNodes (documentNodes twiceOne)).map PipelineNodeConfig.id).Nodup := by
    decide +kernel
  intro h
  exact htwice (h _ (fromJson_of_fit "" hread (nodesAccepted_iff.mp haccepted))).nodup

end ReadingBack

end TmkDcl.Libcommon
