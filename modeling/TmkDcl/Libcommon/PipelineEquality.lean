import TmkDcl.Libcommon.PipelineNodes

/-!
# Equality of pipelines (PipelineConfig.cpp)

Both `operator==` search the parameters, and the nodes, of one side in those of the other. Here is
when that goes both ways, and when two values that are equal are written alike.
-/

namespace TmkDcl.Libcommon

open TmkDcl (Json)

/-! ### Nodes -/

/-- All but the order of the parameters, and which of them are repeated. -/
structure PipelineNodeConfig.Alike (a b : PipelineNodeConfig) : Prop where
  id : a.id = b.id
  nextId : a.nextId = b.nextId
  nodeName : a.nodeName = b.nodeName
  nodeType : a.nodeType = b.nodeType
  path : a.path = b.path
  count : a.launchParameters.length = b.launchParameters.length

namespace PipelineNodeConfig

variable {a b c : PipelineNodeConfig}

theorem Alike.symm (h : a.Alike b) : b.Alike a :=
  ⟨h.id.symm, h.nextId.symm, h.nodeName.symm, h.nodeType.symm, h.path.symm, h.count.symm⟩

theorem Alike.trans (h : a.Alike b) (h' : b.Alike c) : a.Alike c :=
  ⟨h.id.trans h'.id, h.nextId.trans h'.nextId, h.nodeName.trans h'.nodeName,
    h.nodeType.trans h'.nodeType, h.path.trans h'.path, h.count.trans h'.count⟩

theorem Alike.eq (h : a.Alike b) (hparams : a.launchParameters = b.launchParameters) : a = b := by
  obtain ⟨id, path, params, type, next, name⟩ := a
  obtain ⟨rfl, rfl, rfl, rfl, rfl, -⟩ := h
  obtain rfl : params = b.launchParameters := hparams
  rfl

theorem eq_iff_alike :
    a.eq b = true ↔ a.Alike b ∧ a.launchParameters ⊆ b.launchParameters := by
  simp only [PipelineNodeConfig.eq, Bool.and_eq_true, beq_iff_eq, List.all_eq_true,
    List.any_eq_true]
  constructor
  · intro h
    obtain ⟨⟨⟨⟨⟨⟨h1, h2⟩, h3⟩, h4⟩, h5⟩, h6⟩, hmem⟩ := h
    refine ⟨⟨h1, h2, h3, h4, h5, h6⟩, ?_⟩
    intro s hs
    obtain ⟨other, hother, heq⟩ := hmem s hs
    exact heq ▸ hother
  · intro h
    obtain ⟨halike, hsub⟩ := h
    exact ⟨⟨⟨⟨⟨⟨halike.id, halike.nextId⟩, halike.nodeName⟩, halike.nodeType⟩, halike.path⟩,
      halike.count⟩, fun s hs => ⟨s, hsub hs, rfl⟩⟩

theorem launchParameters_of_toJson (h : a.toJson = b.toJson) :
    a.launchParameters = b.launchParameters := by
  have hlook : ∀ node : PipelineNodeConfig, node.toJson.lookup "parameters" =
      some (.array (node.launchParameters.map .string)) :=
    fun node => Json.lookup_setField_self _ _ _
  have harray := hlook a
  rw [h, hlook b, Option.some.injEq, Json.array.injEq] at harray
  exact (List.map_injective_iff.mpr fun _ _ => Json.string.inj) harray.symm

/-- The comparison is symmetric and sees the parameters as they are written exactly where
parameters of one side that all occur on the other are the same list. -/
theorem eq_faithful_iff (a b : PipelineNodeConfig) :
    ((a.eq b = true ↔ b.eq a = true) ∧ (a.eq b = true → a.toJson = b.toJson)) ↔
      (a.Alike b →
        a.launchParameters ⊆ b.launchParameters ∨ b.launchParameters ⊆ a.launchParameters →
        a.launchParameters = b.launchParameters) := by
  constructor
  · intro h halike hsub
    obtain ⟨hsymm, hjson⟩ := h
    apply launchParameters_of_toJson
    apply hjson
    cases hsub with
    | inl hab => exact eq_iff_alike.mpr ⟨halike, hab⟩
    | inr hba => exact hsymm.mpr (eq_iff_alike.mpr ⟨halike.symm, hba⟩)
  · intro h
    have hab : a.eq b = true → a = b := by
      intro heq
      obtain ⟨halike, hsub⟩ := eq_iff_alike.mp heq
      exact halike.eq (h halike (.inl hsub))
    have hba : b.eq a = true → a = b := by
      intro heq
      obtain ⟨halike, hsub⟩ := eq_iff_alike.mp heq
      exact halike.symm.eq (h halike.symm (.inr hsub))
    refine ⟨⟨?_, ?_⟩, ?_⟩
    · intro heq
      rw [hab heq]
      exact eq_refl b
    · intro heq
      rw [hba heq]
      exact eq_refl b
    · intro heq
      rw [hab heq]

end PipelineNodeConfig

/-! ### Pipelines -/

namespace PipelineConfig

/-- Under the id of each node of `p`, the first node of `q` is like it, with no other parameters. -/
def FoundIn (p q : PipelineConfig) : Prop :=
  ∀ node ∈ p.nodes, ∃ first, (q.nodes.find? fun other => other.id == node.id) = some first ∧
    first.Alike node ∧ first.launchParameters ⊆ node.launchParameters

/-- The same ids are in use, all nodes under one id are alike, and the parameters of the first of
them, on each side, are among those of all on the other. -/
structure Twins (p q : PipelineConfig) : Prop where
  ids : ∀ i, (∃ a ∈ p.nodes, a.id = i) ↔ ∃ b ∈ q.nodes, b.id = i
  alike : ∀ a ∈ p.nodes ++ q.nodes, ∀ b ∈ p.nodes ++ q.nodes, a.id = b.id → a.Alike b
  left : ∀ a ∈ p.nodes, ∀ first, (q.nodes.find? fun other => other.id == a.id) = some first →
    first.launchParameters ⊆ a.launchParameters
  right : ∀ b ∈ q.nodes, ∀ first, (p.nodes.find? fun other => other.id == b.id) = some first →
    first.launchParameters ⊆ b.launchParameters

/-- The node that is written last under a name. -/
def written (p : PipelineConfig) (name : String) : Option PipelineNodeConfig :=
  ((sortNodes p.nodes).filter fun node => node.nodeName == name).getLast?

variable {p q : PipelineConfig} {name : String}

theorem eq_iff_foundIn : p.eq q = true ↔ p.pipeLineConfigName = q.pipeLineConfigName ∧
    p.nodes.length = q.nodes.length ∧ p.FoundIn q := by
  rw [eq_true_iff]
  simp only [PipelineNodeConfig.eq_iff_alike, FoundIn]

theorem find_some {nodes : List PipelineNodeConfig} {node : PipelineNodeConfig}
    (h : node ∈ nodes) : ∃ first ∈ nodes, first.id = node.id ∧
      (nodes.find? fun other => other.id == node.id) = some first := by
  cases hfind : nodes.find? fun other => other.id == node.id with
  | none => simpa using List.find?_eq_none.mp hfind node h
  | some first =>
    have hid := List.find?_some hfind
    exact ⟨first, List.mem_of_find?_eq_some hfind, beq_iff_eq.mp hid, rfl⟩

/-- A node of `p` and one of `q` under one id are alike: each is like the first on the other
side, and the two first ones are. -/
theorem alike_of_foundIn (hpq : p.FoundIn q) (hqp : q.FoundIn p) {a b : PipelineNodeConfig}
    (ha : a ∈ p.nodes) (hb : b ∈ q.nodes) (hid : a.id = b.id) : a.Alike b := by
  obtain ⟨first, hfirst, halike, -⟩ := hpq a ha
  obtain ⟨other, hother, halike', -⟩ := hqp b hb
  have hmem : other ∈ p.nodes := List.mem_of_find?_eq_some hother
  obtain ⟨first', hfirst', halike'', -⟩ := hpq other hmem
  rw [halike'.id, ← hid, hfirst, Option.some.injEq] at hfirst'
  exact halike.symm.trans ((hfirst' ▸ halike'').trans halike')

theorem twins_iff : p.FoundIn q ∧ q.FoundIn p ↔ p.Twins q := by
  constructor
  · intro h
    obtain ⟨hpq, hqp⟩ := h
    have hids : ∀ {p q : PipelineConfig}, p.FoundIn q → ∀ a ∈ p.nodes, ∃ b ∈ q.nodes, b.id = a.id := by
      intro p q hfound a ha
      obtain ⟨first, hfirst, halike, -⟩ := hfound a ha
      exact ⟨first, List.mem_of_find?_eq_some hfirst, halike.id⟩
    refine ⟨?_, ?_, ?_, ?_⟩
    · intro i
      constructor
      · intro ha
        obtain ⟨a, ha, rfl⟩ := ha
        exact hids hpq a ha
      · intro hb
        obtain ⟨b, hb, rfl⟩ := hb
        exact hids hqp b hb
    · intro a ha b hb hid
      cases List.mem_append.mp ha with
      | inl ha =>
        cases List.mem_append.mp hb with
        | inl hb =>
          obtain ⟨other, hother, hid'⟩ := hids hpq b hb
          exact (alike_of_foundIn hpq hqp ha hother (hid.trans hid'.symm)).trans
            (alike_of_foundIn hpq hqp hb hother hid'.symm).symm
        | inr hb => exact alike_of_foundIn hpq hqp ha hb hid
      | inr ha =>
        cases List.mem_append.mp hb with
        | inl hb => exact (alike_of_foundIn hpq hqp hb ha hid.symm).symm
        | inr hb =>
          obtain ⟨other, hother, hid'⟩ := hids hqp b hb
          exact (alike_of_foundIn hqp hpq ha hother (hid.trans hid'.symm)).trans
            (alike_of_foundIn hqp hpq hb hother hid'.symm).symm
    · intro a ha first hfirst
      obtain ⟨first', hfirst', -, hsub⟩ := hpq a ha
      rw [hfirst, Option.some.injEq] at hfirst'
      exact hfirst' ▸ hsub
    · intro b hb first hfirst
      obtain ⟨first', hfirst', -, hsub⟩ := hqp b hb
      rw [hfirst, Option.some.injEq] at hfirst'
      exact hfirst' ▸ hsub
  · intro h
    constructor
    · intro a ha
      obtain ⟨b, hb, hid⟩ := (h.ids a.id).mp ⟨a, ha, rfl⟩
      obtain ⟨first, hmem, hid', hfirst⟩ := find_some hb
      rw [hid] at hfirst hid'
      exact ⟨first, hfirst, h.alike _ (List.mem_append_right _ hmem) _
        (List.mem_append_left _ ha) hid', h.left a ha first hfirst⟩
    · intro b hb
      obtain ⟨a, ha, hid⟩ := (h.ids b.id).mpr ⟨b, hb, rfl⟩
      obtain ⟨first, hmem, hid', hfirst⟩ := find_some ha
      rw [hid] at hfirst hid'
      exact ⟨first, hfirst, h.alike _ (List.mem_append_left _ hmem) _
        (List.mem_append_right _ hb) hid', h.right b hb first hfirst⟩

/-! ### What is written -/

theorem lookup_toJson (p : PipelineConfig) (name : String) :
    p.toJson.lookup name = (p.written name).map fun node => .object node.toJson := by
  rw [PipelineConfig.toJson, Json.lookup_foldl_setField_eq]
  exact Option.or_none

theorem written_some {a : PipelineNodeConfig} (h : p.written name = some a) :
    (a ∈ p.nodes ∧ a.nodeName = name) ∧
      ∀ c ∈ p.nodes, c.nodeName = name → c.id.toInt ≤ a.id.toInt := by
  unfold written at h
  have hsorted := (sortNodes_sorted p.nodes).filter fun node => node.nodeName == name
  have hmem : ∀ c, c ∈ (sortNodes p.nodes).filter (fun node => node.nodeName == name) ↔
      c ∈ p.nodes ∧ c.nodeName = name := by
    intro c
    rw [List.mem_filter, mem_sortNodes, beq_iff_eq]
  refine ⟨(hmem a).mp (List.mem_of_getLast? h), ?_⟩
  intro c hc hname
  have hle := id_le_getLast hsorted ((hmem c).mpr ⟨hc, hname⟩)
  rw [List.getLast?_eq_getLast_of_ne_nil (List.ne_nil_of_mem ((hmem c).mpr ⟨hc, hname⟩)),
    Option.some.injEq] at h
  rwa [h] at hle

theorem exists_written {c : PipelineNodeConfig} (hc : c ∈ p.nodes) :
    ∃ a, p.written c.nodeName = some a := by
  cases h : p.written c.nodeName with
  | none =>
    have hmem : c ∈ (sortNodes p.nodes).filter fun node => node.nodeName == c.nodeName :=
      List.mem_filter.mpr ⟨mem_sortNodes.mpr hc, beq_self_eq_true _⟩
    rw [List.getLast?_eq_none_iff.mp h] at hmem
    cases hmem
  | some a => exact ⟨a, rfl⟩

theorem Twins.written (h : p.Twins q) {a : PipelineNodeConfig} (ha : p.written name = some a) :
    ∃ b, q.written name = some b ∧ a.Alike b := by
  obtain ⟨⟨hmem, rfl⟩, hlast⟩ := written_some ha
  obtain ⟨b₀, hb₀, hid₀⟩ := (h.ids a.id).mp ⟨a, hmem, rfl⟩
  have halike₀ := h.alike _ (List.mem_append_right _ hb₀) _ (List.mem_append_left _ hmem) hid₀
  obtain ⟨b, hb⟩ := exists_written hb₀
  rw [halike₀.nodeName] at hb
  obtain ⟨⟨hmem', hname⟩, hlast'⟩ := written_some hb
  obtain ⟨a₀, ha₀, hid⟩ := (h.ids b.id).mpr ⟨b, hmem', rfl⟩
  have halike := h.alike _ (List.mem_append_left _ ha₀) _ (List.mem_append_right _ hmem') hid
  have hle := hlast a₀ ha₀ (halike.nodeName.trans hname)
  have hge := hlast' b₀ hb₀ halike₀.nodeName
  rw [hid] at hle
  rw [hid₀] at hge
  exact ⟨b, hb, h.alike _ (List.mem_append_left _ hmem) _ (List.mem_append_right _ hmem')
    (toInt_injective (Int.le_antisymm hge hle))⟩

/-- Twins are written alike exactly if the nodes written last have the same parameters. -/
theorem Twins.toJson_eq_iff (h : p.Twins q) : p.toJson = q.toJson ↔
    ∀ name, (p.written name).map PipelineNodeConfig.launchParameters =
      (q.written name).map PipelineNodeConfig.launchParameters := by
  constructor
  · intro hjson name
    have hlook := lookup_toJson p name
    rw [hjson, lookup_toJson] at hlook
    cases ha : p.written name with
    | none =>
      rw [ha] at hlook
      rw [Option.map_eq_none_iff.mp hlook]
    | some a =>
      obtain ⟨b, hb, -⟩ := h.written ha
      rw [ha, hb, Option.map_some, Option.map_some, Option.some.injEq, Json.object.injEq] at hlook
      rw [hb, Option.map_some, Option.map_some,
        PipelineNodeConfig.launchParameters_of_toJson hlook]
  · intro hparams
    apply (sorted_toJson p).ext (sorted_toJson q)
    intro name
    rw [lookup_toJson, lookup_toJson]
    have hname := hparams name
    cases ha : p.written name with
    | none =>
      rw [ha] at hname
      rw [Option.map_eq_none_iff.mp hname.symm]
    | some a =>
      obtain ⟨b, hb, halike⟩ := h.written ha
      rw [ha, hb, Option.map_some, Option.map_some, Option.some.injEq] at hname
      rw [hb, halike.eq hname]

theorem document_eq_iff (hlen : p.nodes.length = q.nodes.length) :
    p.document = q.document ↔ p.toJson = q.toJson := by
  have hempty : p.nodes.isEmpty = q.nodes.isEmpty := by
    rw [Bool.eq_iff_iff, List.isEmpty_iff_length_eq_zero, List.isEmpty_iff_length_eq_zero, hlen]
  unfold document
  rw [← hempty]
  split
  · rename_i hnil
    rw [List.isEmpty_iff] at hnil
    rw [hnil] at hlen
    have hnil' : q.nodes = [] := List.length_eq_zero_iff.mp hlen.symm
    refine iff_of_true rfl ?_
    rw [PipelineConfig.toJson, PipelineConfig.toJson, hnil, hnil']
  · rw [Json.object.injEq]

/-- The comparison is symmetric and sees what is written exactly where two pipelines of which one
is found in the other are twins, with the same parameters in the nodes that are written. -/
theorem eq_faithful_iff (p q : PipelineConfig) :
    ((p.eq q = true ↔ q.eq p = true) ∧ (p.eq q = true → p.document = q.document)) ↔
      (p.pipeLineConfigName = q.pipeLineConfigName → p.nodes.length = q.nodes.length →
        p.FoundIn q ∨ q.FoundIn p → p.Twins q ∧
          ∀ name, (p.written name).map PipelineNodeConfig.launchParameters =
            (q.written name).map PipelineNodeConfig.launchParameters) := by
  simp only [eq_iff_foundIn]
  constructor
  · intro h hname hlen hfound
    obtain ⟨hsymm, hjson⟩ := h
    have hboth : p.FoundIn q ∧ q.FoundIn p := by
      cases hfound with
      | inl hpq => exact ⟨hpq, (hsymm.mp ⟨hname, hlen, hpq⟩).2.2⟩
      | inr hqp => exact ⟨(hsymm.mpr ⟨hname.symm, hlen.symm, hqp⟩).2.2, hqp⟩
    have htwins := twins_iff.mp hboth
    exact ⟨htwins, htwins.toJson_eq_iff.mp
      ((document_eq_iff hlen).mp (hjson ⟨hname, hlen, hboth.1⟩))⟩
  · intro h
    refine ⟨⟨?_, ?_⟩, ?_⟩
    · intro heq
      obtain ⟨hname, hlen, hpq⟩ := heq
      exact ⟨hname.symm, hlen.symm, (twins_iff.mpr (h hname hlen (.inl hpq)).1).2⟩
    · intro heq
      obtain ⟨hname, hlen, hqp⟩ := heq
      exact ⟨hname.symm, hlen.symm, (twins_iff.mpr (h hname.symm hlen.symm (.inr hqp)).1).1⟩
    · intro heq
      obtain ⟨hname, hlen, hpq⟩ := heq
      obtain ⟨htwins, hparams⟩ := h hname hlen (.inl hpq)
      exact (document_eq_iff hlen).mpr (htwins.toJson_eq_iff.mpr hparams)

end PipelineConfig

/-- Equality of nodes, and of pipelines, is symmetric and respects what is written exactly under
these conditions on the two sides. -/
theorem equality_respects_content (a b : PipelineNodeConfig) (p q : PipelineConfig) :
    (((a.eq b = true ↔ b.eq a = true) ∧ (a.eq b = true → a.toJson = b.toJson)) ↔
      (a.Alike b →
        a.launchParameters ⊆ b.launchParameters ∨ b.launchParameters ⊆ a.launchParameters →
        a.launchParameters = b.launchParameters)) ∧
    (((p.eq q = true ↔ q.eq p = true) ∧ (p.eq q = true → p.document = q.document)) ↔
      (p.pipeLineConfigName = q.pipeLineConfigName → p.nodes.length = q.nodes.length →
        p.FoundIn q ∨ q.FoundIn p → p.Twins q ∧
          ∀ name, (p.written name).map PipelineNodeConfig.launchParameters =
            (q.written name).map PipelineNodeConfig.launchParameters)) :=
  ⟨PipelineNodeConfig.eq_faithful_iff a b, PipelineConfig.eq_faithful_iff p q⟩

/-- One parameter twice against two parameters. -/
theorem repeated_parameter_equal :
    ¬ ∀ a b : PipelineNodeConfig,
      (a.eq b = true ↔ b.eq a = true) ∧ (a.eq b = true → a.toJson = b.toJson) := by
  intro h
  have hsymm := (h ⟨0, "", ["x", "x"], .first, -1, "n"⟩ ⟨0, "", ["x", "y"], .first, -1, "n"⟩).1
  exact absurd (hsymm.mp (by decide)) (by decide)

end TmkDcl.Libcommon
