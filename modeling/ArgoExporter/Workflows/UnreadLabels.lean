/-
  ArgoExporter.Workflows.UnreadLabels

  Two objects that agree on every field the exporter reads.  The extractors
  cannot tell them apart, whatever the order of their nodes, but the validator
  also looks at the labels that nobody reads, and rejects an object for a blank
  one.
-/

import ArgoExporter.Workflows.ReadFields

namespace ArgoExporter.Workflows

open ArgoExporter.Py
open ArgoExporter.ParquetIo

/-! ## Agreement -/

/-- Both values are objects, or both null, or both neither. -/
def SameKind (a b : Json) : Prop := a.isDict = b.isDict ∧ a.isNull = b.isNull

/-- Two nodes with the same read fields. -/
def SameNode (a b : Json) : Prop := SameKind a b ∧ ∀ field ∈ nodeFields, a.get? field = b.get? field

/-- The objects agree on the fields that are read, each of them absent from both or equal in both;
    everything else is arbitrary, the order of the nodes included. -/
structure AgreeOnRead (wf wf' : Json) : Prop where
  object : wf.isDict = wf'.isDict
  metadataKind : SameKind (wf.get "metadata") (wf'.get "metadata")
  metadata : ∀ field ∈ ["uid", "name", "namespace", "creationTimestamp"],
    (wf.get "metadata").get? field = (wf'.get "metadata").get? field
  labels : ∀ name ∈ readLabels, ((wf.get "metadata").get "labels").get? name =
    ((wf'.get "metadata").get "labels").get? name
  specKind : SameKind (wf.get "spec") (wf'.get "spec")
  templateRefKind : SameKind ((wf.get "spec").get "workflowTemplateRef")
    ((wf'.get "spec").get "workflowTemplateRef")
  templateRef : ∀ field ∈ ["name", "clusterScope"],
    ((wf.get "spec").get "workflowTemplateRef").get? field =
      ((wf'.get "spec").get "workflowTemplateRef").get? field
  statusKind : SameKind (wf.get "status") (wf'.get "status")
  status : ∀ field ∈ statusFields, (wf.get "status").get? field = (wf'.get "status").get? field
  compressedNodes : (wf.get "status").get? "compressedNodes" =
    (wf'.get "status").get? "compressedNodes"
  resourcesKind : SameKind ((wf.get "status").get "resourcesDuration")
    ((wf'.get "status").get "resourcesDuration")
  resources : ∀ field ∈ ["cpu", "memory"],
    ((wf.get "status").get "resourcesDuration").get? field =
      ((wf'.get "status").get "resourcesDuration").get? field
  nodesKind : SameKind ((wf.get "status").get "nodes") ((wf'.get "status").get "nodes")
  nodes : ∀ key, Option.Rel SameNode (((wf.get "status").get "nodes").get? key)
    (((wf'.get "status").get "nodes").get? key)

/-- The labels are an absent map, or a map whose unread values are strings. -/
def StringLabels (wf : Json) : Prop :=
  (wf.get "metadata").get "labels" = .null ∨
    ((wf.get "metadata").get "labels").isDict = true ∧
      ∀ e ∈ ((wf.get "metadata").get "labels").fields, e.1 ∉ readLabels → ∃ s, e.2 = .str s

/-- A label that nobody reads is empty or white space. -/
def BlankUnreadLabel (wf : Json) : Prop :=
  ∃ e ∈ ((wf.get "metadata").get "labels").fields, e.1 ∉ readLabels ∧
    ∃ s, e.2 = .str s ∧ strip s = ""

/-- What validation asks of the fields that are read. -/
structure ValidRead (wf : Json) : Prop where
  isDict : wf.isDict = true
  metadata : (wf.get "metadata").isDict = true
  identity : ∀ field ∈ ["uid", "name", "namespace"], IsNonBlank ((wf.get "metadata").get field)
  labels : ∀ name ∈ readLabels, ∀ value,
    ((wf.get "metadata").get "labels").get? name = some value → IsNonBlank value
  spec : ValidSpec (wf.get "spec")
  status : ValidStatus (wf.get "status")

variable {Bytes : Type} (py : Platform Bytes)

/-- The read fields by themselves would give a row. -/
def ReadAccepted (wf : Json) : Prop :=
  ValidRead wf ∧ ∃ nodes, nodesOf py (wf.get "status") = .ok nodes ∧ TimesInRange wf nodes

/-- Both objects give one and the same row, or both are rejected. -/
def SameOutcome (wf wf' : Json) (clusterName observedAt : String) : Prop :=
  ∀ row, toRow py wf clusterName observedAt = .ok row ↔ toRow py wf' clusterName observedAt = .ok row

/-! ## Validation -/

theorem SameKind.symm {a b : Json} (h : SameKind a b) : SameKind b a := ⟨h.1.symm, h.2.symm⟩

theorem SameNode.symm {a b : Json} (h : SameNode a b) : SameNode b a :=
  ⟨h.1.symm, fun field hf => (h.2 field hf).symm⟩

theorem get_congr {a b : Json} {k : String} (h : a.get? k = b.get? k) : a.get k = b.get k := by
  rw [Json.get, Json.get, h]

theorem has_congr {a b : Json} {k : String} (h : a.get? k = b.get? k) : a.has k = b.has k := by
  rw [Json.has, Json.has, h]

theorem SameKind.null_iff {a b : Json} (h : SameKind a b) : a = .null ↔ b = .null := by
  rw [← Json.isNull_iff, ← Json.isNull_iff, h.2]

theorem SameNode.get {a b : Json} (h : SameNode a b) {field : String} (hf : field ∈ nodeFields) :
    a.get field = b.get field :=
  get_congr (h.2 field hf)

theorem optionRel_symm {a b : Option Json} (h : Option.Rel SameNode a b) :
    Option.Rel SameNode b a := by
  cases h with
  | some h => exact .some h.symm
  | none => exact .none

theorem AgreeOnRead.symm {wf wf' : Json} (h : AgreeOnRead wf wf') : AgreeOnRead wf' wf where
  object := h.object.symm
  metadataKind := h.metadataKind.symm
  metadata := fun field hf => (h.metadata field hf).symm
  labels := fun name hn => (h.labels name hn).symm
  specKind := h.specKind.symm
  templateRefKind := h.templateRefKind.symm
  templateRef := fun field hf => (h.templateRef field hf).symm
  statusKind := h.statusKind.symm
  status := fun field hf => (h.status field hf).symm
  compressedNodes := h.compressedNodes.symm
  resourcesKind := h.resourcesKind.symm
  resources := fun field hf => (h.resources field hf).symm
  nodesKind := h.nodesKind.symm
  nodes := fun key => optionRel_symm (h.nodes key)

/-- Validation is that of the read fields, and no unread label is blank. -/
theorem validWorkflow_iff {wf : Json} (hdistinct : wf.DistinctKeys) (hlabels : StringLabels wf) :
    ValidWorkflow wf ↔ ValidRead wf ∧ ¬ BlankUnreadLabel wf := by
  have hkeys := (hdistinct.get "metadata").get "labels"
  constructor
  · intro h
    refine ⟨⟨h.isDict, h.metadata.1, h.metadata.2.1, ?_, h.spec, h.status⟩, ?_⟩
    -- a label that is read is one of the entries
    · intro name _ value hvalue
      rcases h.metadata.2.2 with hnull | ⟨_, hall⟩
      · rw [hnull] at hvalue
        exact absurd hvalue (by simp [Json.get?])
      · exact hall _ (hkeys.get?_eq_some_iff.mp hvalue)
    · rintro ⟨e, he, _, s, hs, hblank⟩
      rcases h.metadata.2.2 with hnull | ⟨_, hall⟩
      · rw [hnull] at he
        exact absurd he List.not_mem_nil
      · obtain ⟨s', hs', hne⟩ := hall e he
        rw [hs, Json.str.injEq] at hs'
        exact hne (hs' ▸ hblank)
  · rintro ⟨h, hblank⟩
    refine ⟨h.isDict, ⟨h.metadata, h.identity, ?_⟩, h.spec, h.status⟩
    rcases hlabels with hnull | ⟨hdict, hstrings⟩
    · exact Or.inl hnull
    · refine Or.inr ⟨hdict, fun e he => ?_⟩
      by_cases hread : e.1 ∈ readLabels
      · exact h.labels e.1 hread e.2 (hkeys.get?_eq_some_iff.mpr he)
      · obtain ⟨s, hs⟩ := hstrings e he hread
        exact ⟨s, hs, fun hb => hblank ⟨e, he, hread, s, hs, hb⟩⟩

theorem validTemplateRef_congr {ref ref' : Json} (hkind : SameKind ref ref')
    (h : ∀ field ∈ ["name", "clusterScope"], ref.get? field = ref'.get? field)
    (hvalid : ValidTemplateRef ref) : ValidTemplateRef ref' := by
  rcases hvalid with hnull | ⟨hdict, hname, hscope⟩
  · exact Or.inl (hkind.null_iff.mp hnull)
  · refine Or.inr ⟨hkind.1 ▸ hdict, ?_, ?_⟩
    · rw [← get_congr (h "name" (by decide))]
      exact hname
    · rw [← get_congr (h "clusterScope" (by decide)), ← has_congr (h "clusterScope" (by decide))]
      exact hscope

theorem validResources_congr {resources resources' : Json} (hkind : SameKind resources resources')
    (h : ∀ field ∈ ["cpu", "memory"], resources.get? field = resources'.get? field)
    (hvalid : ValidResources resources) : ValidResources resources' := by
  rcases hvalid with hnull | ⟨hdict, hints⟩
  · exact Or.inl (hkind.null_iff.mp hnull)
  · refine Or.inr ⟨hkind.1 ▸ hdict, fun field hf => ?_⟩
    rw [← get_congr (h field hf), ← has_congr (h field hf)]
    exact hints field hf

theorem validNode_congr {node node' : Json} (h : SameNode node node') (hvalid : ValidNode node) :
    ValidNode node' := by
  refine ⟨h.1.1 ▸ hvalid.1, fun field hf => ?_⟩
  rw [← h.get hf]
  exact hvalid.2 field hf

/-- Validity of a node map, node by node: the order of the nodes does not matter. -/
theorem validNodes_congr {nodes nodes' : Json} (hdistinct : nodes'.DistinctKeys)
    (hkind : SameKind nodes nodes')
    (h : ∀ key, Option.Rel SameNode (nodes.get? key) (nodes'.get? key))
    (hvalid : ValidNodes nodes) : ValidNodes nodes' := by
  rcases hvalid with hnull | ⟨hdict, hall⟩
  · exact Or.inl (hkind.null_iff.mp hnull)
  · refine Or.inr ⟨hkind.1 ▸ hdict, fun e he => ?_⟩
    have hrel := h e.1
    rw [hdistinct.get?_eq_some_iff.mpr he] at hrel
    generalize hnode : nodes.get? e.1 = found at hrel
    cases hrel with
    | some hsame => exact validNode_congr hsame (hall _ (mem_fields_of_get? hnode))

/-! ## The failing step -/

theorem isFailingPod_congr {a b : Json} (h : SameNode a b) : isFailingPod a = isFailingPod b := by
  unfold isFailingPod
  rw [h.1.1, h.get (by decide : "phase" ∈ nodeFields), h.get (by decide : "type" ∈ nodeFields)]

theorem selectionKey_congr {a b : Json} (h : SameNode a b) (key : String) :
    selectionKey (key, a) = selectionKey (key, b) := by
  unfold selectionKey
  dsimp only
  rw [h.get (by decide : "startedAt" ∈ nodeFields)]

theorem utcInRange_congr {a b : Json} (h : SameNode a b) :
    UtcInRange (a.get "startedAt") ↔ UtcInRange (b.get "startedAt") := by
  rw [h.get (by decide : "startedAt" ∈ nodeFields)]

/-- The last component of a selection key is the name of the node. -/
theorem selectionKey_name {e : String × Json} {key : SelectionKey} (h : selectionKey e = .ok key) :
    (ofLex (ofLex key).2).2 = e.1 := by
  by_cases hu : Usable (e.2.get "startedAt")
  · obtain ⟨naive, offset, hparse⟩ := hu
    rw [selectionKey_of_usable hparse] at h
    obtain ⟨utc, _, rfl⟩ := map_eq_ok.mp h
    rfl
  · rw [selectionKey_of_unusable hu, Except.ok.injEq] at h
    rw [← h]
    rfl

/-- The earliest failure has a smaller key than every failing pod of another name. -/
theorem EarliestFailure.key_lt {nodes : List (String × Json)} {e a : String × Json}
    {ke ka : SelectionKey} (h : EarliestFailure nodes e) (ha : a ∈ failures nodes)
    (hname : a.1 ≠ e.1) (hke : selectionKey e = .ok ke) (hka : selectionKey a = .ok ka) :
    ke < ka := by
  obtain ⟨before, after, hsplit, hbefore, hafter⟩ := h
  rw [hsplit, List.mem_append, List.mem_cons] at ha
  rcases ha with ha | rfl | ha
  · obtain ⟨ke', ka', he', ha', hlt⟩ := hbefore a ha
    rw [hke, Except.ok.injEq] at he'
    rw [hka, Except.ok.injEq] at ha'
    rw [he', ha']
    exact hlt
  · exact absurd rfl hname
  -- an equal key would have the same name in it
  · have hne : ke ≠ ka := by
      rintro rfl
      exact hname ((selectionKey_name hka).symm.trans (selectionKey_name hke))
    have hle : ke ≤ ka := not_lt.mp fun hlt => hafter a ha ⟨ka, ke, hka, hke, hlt⟩
    exact lt_of_le_of_ne hle hne

/-- Every node of the first map is in the second one, under the same name. -/
def NodesWithin (nodes nodes' : List (String × Json)) : Prop :=
  ∀ e ∈ nodes, ∃ node', (e.1, node') ∈ nodes' ∧ SameNode e.2 node'

theorem NodesWithin.failures {nodes nodes' : List (String × Json)} (h : NodesWithin nodes nodes') :
    NodesWithin (failures nodes) (failures nodes') := by
  intro e he
  obtain ⟨hmem, hfailing⟩ := List.mem_filter.mp he
  obtain ⟨node', hnode', hsame⟩ := h e hmem
  refine ⟨node', List.mem_filter.mpr ⟨hnode', ?_⟩, hsame⟩
  rw [← isFailingPod_congr hsame]
  exact hfailing

/-- Failing pods that are all found in a second map start in range when those of the map do. -/
theorem NodesWithin.utcInRange {nodes nodes' : List (String × Json)} (h : NodesWithin nodes nodes')
    (hrange : ∀ e ∈ Workflows.failures nodes', UtcInRange (e.2.get "startedAt")) :
    ∀ e ∈ Workflows.failures nodes, UtcInRange (e.2.get "startedAt") := by
  intro e he
  obtain ⟨node, hnode, hsame⟩ := h.failures e he
  rw [utcInRange_congr hsame]
  exact hrange _ hnode

/-- Maps with the same nodes have the same earliest failure. -/
theorem EarliestFailure.same {nodes nodes' : List (String × Json)} (h : NodesWithin nodes nodes')
    (h' : NodesWithin nodes' nodes) (hnd : (nodes'.map Prod.fst).Nodup) {e e' : String × Json}
    (he : EarliestFailure nodes e) (he' : EarliestFailure nodes' e')
    (hkeys : ∀ a ∈ failures nodes, ∃ key, selectionKey a = .ok key) : SameNode e.2 e'.2 := by
  have hmem : e ∈ failures nodes := he.mem_failures
  have hmem' : e' ∈ failures nodes' := he'.mem_failures
  obtain ⟨node', hnode', hsame⟩ := h.failures e hmem
  obtain ⟨node, hnode, hsame'⟩ := h'.failures e' hmem'
  obtain ⟨ke, hke⟩ := hkeys e hmem
  obtain ⟨ke', hke'⟩ := hkeys _ hnode
  have hname : e.1 = e'.1 := by
    by_contra hne
    -- each of the two would be strictly before the other
    have hlt : ke < ke' := he.key_lt hnode (Ne.symm hne) hke hke'
    have hkey : selectionKey (e.1, node') = .ok ke := by
      rw [← selectionKey_congr hsame]
      exact hke
    have hkey' : selectionKey e' = .ok ke' := by
      rw [← hke']
      exact selectionKey_congr hsame' e'.1
    exact lt_asymm hlt (he'.key_lt hnode' hne hkey' hkey)
  have heq : (e.1, node') = e' :=
    List.inj_on_of_nodup_map hnd (List.mem_of_mem_filter hnode') (List.mem_of_mem_filter hmem')
      hname
  rw [← heq]
  exact hsame

section Step

variable {Bytes : Type} {py : Platform Bytes} {wf wf' : Json} {nodes nodes' : List (String × Json)}

/-- The outcome of `failed_step` on maps with the same nodes. -/
theorem failedStep_same (h : NodesWithin nodes nodes') (h' : NodesWithin nodes' nodes)
    (hnd : (nodes'.map Prod.fst).Nodup) (hnodes : nodesOf py (wf.get "status") = .ok nodes)
    (hnodes' : nodesOf py (wf'.get "status") = .ok nodes')
    (hkeys : ∀ a ∈ failures nodes, ∃ key, selectionKey a = .ok key) {step step' : Json × Json}
    (hstep : failedStep py wf = .ok step) (hstep' : failedStep py wf' = .ok step') :
    step' = step := by
  obtain ⟨name, message⟩ := step
  obtain ⟨name', message'⟩ := step'
  -- neither map has a failure, or both have the same earliest one
  obtain ⟨found, hfound, hcases⟩ := failedStep_eq_ok hstep
  obtain ⟨found', hfound', hcases'⟩ := failedStep_eq_ok hstep'
  rw [nodesOf_orEmptyDict, hnodes, Except.ok.injEq] at hfound
  rw [nodesOf_orEmptyDict, hnodes', Except.ok.injEq] at hfound'
  subst hfound hfound'
  rcases hcases with ⟨hnone, rfl, rfl⟩ | ⟨e, he, rfl, rfl⟩
  · rcases hcases' with ⟨_, rfl, rfl⟩ | ⟨e', he', _⟩
    · rfl
    · obtain ⟨node, hnode, _⟩ := h'.failures e' he'.mem_failures
      rw [hnone] at hnode
      exact absurd hnode List.not_mem_nil
  · rcases hcases' with ⟨hnone, _⟩ | ⟨e', he', rfl, rfl⟩
    · obtain ⟨node, hnode, _⟩ := h.failures e he.mem_failures
      rw [hnone] at hnode
      exact absurd hnode List.not_mem_nil
    · have hsame := he.same h h' hnd he' hkeys
      rw [stepName, stepName, hsame.get (by decide : "displayName" ∈ nodeFields),
        hsame.get (by decide : "name" ∈ nodeFields), hsame.get (by decide : "message" ∈ nodeFields)]

end Step

/-! ## Two objects that agree -/

section Agree

variable {wf wf' : Json} (h : AgreeOnRead wf wf')

include h

theorem AgreeOnRead.sameReads : SameReads wf wf' where
  identity := fun field hf => h.metadata field (List.mem_append_left ["creationTimestamp"] hf)
  createdAt := get_congr (h.metadata "creationTimestamp" (by decide))
  labels := fun name hn => get_congr (h.labels name hn)
  templateRef := fun field hf => get_congr (h.templateRef field hf)
  status := fun field hf => get_congr (h.status field hf)
  resources := fun field hf => get_congr (h.resources field hf)

theorem AgreeOnRead.nodesWithin (hdistinct : wf.DistinctKeys) :
    NodesWithin ((wf.get "status").get "nodes").fields ((wf'.get "status").get "nodes").fields := by
  intro e he
  have hrel := h.nodes e.1
  rw [((hdistinct.get "status").get "nodes").get?_eq_some_iff.mpr he] at hrel
  generalize hnode : ((wf'.get "status").get "nodes").get? e.1 = found at hrel
  cases hrel with
  | some hsame => exact ⟨_, mem_fields_of_get? hnode, hsame⟩

theorem AgreeOnRead.validRead (hdistinct' : wf'.DistinctKeys) (hvalid : ValidRead wf) :
    ValidRead wf' where
  isDict := h.object ▸ hvalid.isDict
  metadata := h.metadataKind.1 ▸ hvalid.metadata
  identity := by
    intro field hf
    rw [← get_congr (h.metadata field (List.mem_append_left ["creationTimestamp"] hf))]
    exact hvalid.identity field hf
  labels := by
    intro name hn value hvalue
    rw [← h.labels name hn] at hvalue
    exact hvalid.labels name hn value hvalue
  spec := ⟨h.specKind.1 ▸ hvalid.spec.1,
    validTemplateRef_congr h.templateRefKind h.templateRef hvalid.spec.2⟩
  status := by
    rcases hvalid.status with hnull | ⟨hdict, htexts, hresources, hnodes⟩
    · exact Or.inl (h.statusKind.null_iff.mp hnull)
    · refine Or.inr ⟨h.statusKind.1 ▸ hdict, fun field hf => ?_,
        validResources_congr h.resourcesKind h.resources hresources,
        validNodes_congr ((hdistinct'.get "status").get "nodes") h.nodesKind h.nodes hnodes⟩
      rw [← get_congr (h.status field hf)]
      exact htexts field hf

variable {Bytes : Type} {py : Platform Bytes}

/-- The node maps that `failed_step` looks at have the same nodes. -/
theorem AgreeOnRead.nodesOf (hdistinct : wf.DistinctKeys) (hdistinct' : wf'.DistinctKeys)
    {nodes : List (String × Json)} (hnodes : Workflows.nodesOf py (wf.get "status") = .ok nodes) :
    ∃ nodes', Workflows.nodesOf py (wf'.get "status") = .ok nodes' ∧
      (nodes = nodes' ∨ NodesWithin nodes nodes' ∧ NodesWithin nodes' nodes ∧
        (nodes'.map Prod.fst).Nodup) := by
  have hwithin := h.nodesWithin hdistinct
  have hwithin' := h.symm.nodesWithin hdistinct'
  have hnodup := ((hdistinct'.get "status").get "nodes").fields_nodup
  have hkind := h.nodesKind
  unfold Workflows.nodesOf at hnodes ⊢
  rw [get_congr h.compressedNodes] at hnodes
  generalize (wf.get "status").get "nodes" = value at *
  generalize (wf'.get "status").get "nodes" = value' at *
  cases value with
  | null =>
      rw [hkind.null_iff.mp rfl]
      exact ⟨nodes, hnodes, Or.inl rfl⟩
  | obj entries =>
      obtain ⟨entries', rfl⟩ := (Json.isDict_iff value').mp (hkind.1 ▸ rfl)
      rw [← Except.ok.inj hnodes]
      exact ⟨entries', rfl, Or.inr ⟨hwithin, hwithin', hnodup⟩⟩
  | _ =>
      -- neither value is a map, and both are read as an empty one
      obtain ⟨hdict, hnull⟩ := hkind
      cases value' with
      | null => exact absurd hnull (by simp [Json.isNull])
      | obj entries => exact absurd hdict (by simp [Json.isDict])
      | _ => exact ⟨nodes, hnodes, Or.inl rfl⟩

theorem AgreeOnRead.timesInRange {nodes nodes' : List (String × Json)}
    (hsame : nodes = nodes' ∨ NodesWithin nodes nodes' ∧ NodesWithin nodes' nodes ∧
      (nodes'.map Prod.fst).Nodup) (hrange : TimesInRange wf nodes) : TimesInRange wf' nodes' := by
  have hreads := h.sameReads
  refine ⟨?_, ?_, ?_, ?_⟩
  · rw [← hreads.createdAt]
    exact hrange.createdAt
  · rw [← hreads.status "startedAt" (by decide)]
    exact hrange.startedAt
  · rw [← hreads.status "finishedAt" (by decide)]
    exact hrange.finishedAt
  · intro e he
    rcases hsame with rfl | ⟨_, hwithin', _⟩
    · exact hrange.nodes e he
    · exact hwithin'.utcInRange hrange.nodes e he

/-- The read fields decide whether the read fields are accepted. -/
theorem AgreeOnRead.readAccepted (hdistinct : wf.DistinctKeys) (hdistinct' : wf'.DistinctKeys)
    (hread : ReadAccepted py wf) : ReadAccepted py wf' := by
  obtain ⟨hvalid, nodes, hnodes, hrange⟩ := hread
  obtain ⟨nodes', hnodes', hsame⟩ := h.nodesOf hdistinct hdistinct' hnodes
  exact ⟨h.validRead hdistinct' hvalid, nodes', hnodes', h.timesInRange hsame hrange⟩

/-- The same step failed. -/
theorem AgreeOnRead.failedStep (hdistinct : wf.DistinctKeys) (hdistinct' : wf'.DistinctKeys)
    {step : Json × Json} (hstep : Workflows.failedStep py wf = .ok step) :
    Workflows.failedStep py wf' = .ok step := by
  obtain ⟨nodes, hnodes, hrange⟩ := failedStep_ok_iff.mp ⟨step, hstep⟩
  obtain ⟨nodes', hnodes', hsame⟩ := h.nodesOf hdistinct hdistinct' hnodes
  rcases hsame with rfl | ⟨hwithin, hwithin', hnodup⟩
  · rw [← hstep]
    exact failedStep_congr (hnodes'.trans hnodes.symm)
  · have hkeys : ∀ a ∈ failures nodes, ∃ key, selectionKey a = .ok key :=
      fun a ha => (selectionKey_ok_iff a).mpr (hrange a ha)
    have hrange' : ∀ e ∈ failures nodes', UtcInRange (e.2.get "startedAt") :=
      hwithin'.utcInRange hrange
    obtain ⟨step', hstep'⟩ : ∃ step', Workflows.failedStep py wf' = .ok step' :=
      failedStep_ok_iff.mpr ⟨nodes', hnodes', hrange'⟩
    rw [hstep', Except.ok.injEq]
    exact failedStep_same hwithin hwithin' hnodup hnodes hnodes' hkeys hstep hstep'

end Agree

section Outcome

variable {Bytes : Type} {py : Platform Bytes} {wf wf' : Json} {clusterName observedAt : String}

/-- An object gives a row when its read fields would and no other label is blank. -/
theorem toRow_accepts_iff (hdistinct : wf.DistinctKeys) (hlabels : StringLabels wf) :
    (∃ row, toRow py wf clusterName observedAt = .ok row) ↔
      ReadAccepted py wf ∧ ¬ BlankUnreadLabel wf := by
  rw [toRow_ok_iff, validWorkflow_iff hdistinct hlabels, ReadAccepted]
  tauto

/-- Of two objects that agree, the second has the row of the first unless a label is blank. -/
theorem toRow_of_agree (h : AgreeOnRead wf wf') (hdistinct : wf.DistinctKeys)
    (hdistinct' : wf'.DistinctKeys) (hlabels' : StringLabels wf')
    (hblank : ¬ BlankUnreadLabel wf') (hlabels : StringLabels wf) {row : SnapshotRow}
    (hrow : toRow py wf clusterName observedAt = .ok row) :
    toRow py wf' clusterName observedAt = .ok row := by
  have hread : ReadAccepted py wf := ((toRow_accepts_iff hdistinct hlabels).mp ⟨row, hrow⟩).1
  have hvalid' : ValidWorkflow wf' := (validWorkflow_iff hdistinct' hlabels').mpr
    ⟨h.validRead hdistinct' hread.1, hblank⟩
  exact toRow_congr h.sameReads hvalid' (fun _ => h.failedStep hdistinct hdistinct') hrow

/-- Two objects that agree on the read fields have the same outcome exactly when the read fields
    are rejected anyway, or both or neither of them carry a blank label that nobody reads. -/
theorem same_outcome_iff (h : AgreeOnRead wf wf') (hdistinct : wf.DistinctKeys)
    (hdistinct' : wf'.DistinctKeys) (hlabels : StringLabels wf) (hlabels' : StringLabels wf') :
    SameOutcome py wf wf' clusterName observedAt ↔
      ¬ ReadAccepted py wf ∨ (BlankUnreadLabel wf ↔ BlankUnreadLabel wf') := by
  have haccepts : (∃ row, toRow py wf clusterName observedAt = .ok row) ↔ _ :=
    toRow_accepts_iff hdistinct hlabels
  have haccepts' : (∃ row, toRow py wf' clusterName observedAt = .ok row) ↔ _ :=
    toRow_accepts_iff hdistinct' hlabels'
  -- what the exporter reads is accepted for both or for neither
  have hread : ReadAccepted py wf ↔ ReadAccepted py wf' :=
    ⟨h.readAccepted hdistinct hdistinct', h.symm.readAccepted hdistinct' hdistinct⟩
  constructor
  · intro hsame
    have hboth : (∃ row, toRow py wf clusterName observedAt = .ok row) ↔
        ∃ row, toRow py wf' clusterName observedAt = .ok row := exists_congr hsame
    rw [haccepts, haccepts', ← hread] at hboth
    tauto
  · rintro (hrejected | hblank) row
    -- neither object becomes a row
    · have hnone : ¬ ∃ row, toRow py wf clusterName observedAt = .ok row :=
        fun hrow => hrejected (haccepts.mp hrow).1
      have hnone' : ¬ ∃ row, toRow py wf' clusterName observedAt = .ok row :=
        fun hrow => hrejected (hread.mpr (haccepts'.mp hrow).1)
      exact ⟨fun hrow => absurd ⟨row, hrow⟩ hnone, fun hrow => absurd ⟨row, hrow⟩ hnone'⟩
    · constructor
      · intro hrow
        have hno := (haccepts.mp ⟨row, hrow⟩).2
        exact toRow_of_agree h hdistinct hdistinct' hlabels' (hblank.not.mp hno) hlabels hrow
      · intro hrow
        have hno := (haccepts'.mp ⟨row, hrow⟩).2
        exact toRow_of_agree h.symm hdistinct' hdistinct hlabels (hblank.not.mpr hno) hlabels' hrow

end Outcome

/-- The succeeded run of the reference deployment, with one more label. -/
def labelledWorkflow (value : String) : Json :=
  .obj [("metadata", .obj [("uid", .str "u-1"), ("name", .str "nightly"),
      ("namespace", .str "ci"), ("labels", .obj [("team", .str value)])]),
    ("spec", .obj []), ("status", Reference.succeeded)]

theorem agree_labelled (value : String) :
    AgreeOnRead (Reference.workflow "u-1" Reference.succeeded) (labelledWorkflow value) where
  object := rfl
  metadataKind := ⟨rfl, rfl⟩
  metadata := by
    intro field hf
    simp only [List.mem_cons, List.not_mem_nil, or_false] at hf
    rcases hf with rfl | rfl | rfl | rfl <;> rfl
  labels := by
    intro name hn
    simp only [readLabels, List.mem_cons, List.not_mem_nil, or_false] at hn
    rcases hn with rfl | rfl | rfl | rfl | rfl | rfl <;> rfl
  specKind := ⟨rfl, rfl⟩
  templateRefKind := ⟨rfl, rfl⟩
  templateRef := fun _ _ => rfl
  statusKind := ⟨rfl, rfl⟩
  status := fun _ _ => rfl
  compressedNodes := rfl
  resourcesKind := ⟨rfl, rfl⟩
  resources := fun _ _ => rfl
  nodesKind := ⟨rfl, rfl⟩
  nodes := fun _ => .none

theorem distinctKeys_succeeded : Reference.succeeded.DistinctKeys := by
  refine .obj (by decide) ?_
  simp only [List.forall_mem_cons, List.not_mem_nil, false_implies, implies_true, and_true]
  exact .str _

theorem distinctKeys_workflow : (Reference.workflow "u-1" Reference.succeeded).DistinctKeys := by
  refine .obj (by decide) ?_
  simp only [List.forall_mem_cons, List.not_mem_nil, false_implies, implies_true, and_true]
  refine ⟨.obj (by decide) ?_, .obj (by decide) (by simp), distinctKeys_succeeded⟩
  simp only [List.forall_mem_cons, List.not_mem_nil, false_implies, implies_true, and_true]
  exact ⟨.str _, .str _, .str _⟩

theorem distinctKeys_labelled (value : String) : (labelledWorkflow value).DistinctKeys := by
  refine .obj (by simp) ?_
  simp only [List.forall_mem_cons, List.not_mem_nil, false_implies, implies_true, and_true]
  refine ⟨.obj (by simp) ?_, .obj (by decide) (by simp), distinctKeys_succeeded⟩
  simp only [List.forall_mem_cons, List.not_mem_nil, false_implies, implies_true, and_true]
  refine ⟨.str _, .str _, .str _, .obj (by simp) ?_⟩
  simp only [List.forall_mem_cons, List.not_mem_nil, false_implies, implies_true, and_true]
  exact .str _

theorem stringLabels_labelled (value : String) : StringLabels (labelledWorkflow value) :=
  Or.inr ⟨rfl, fun e he _ => ⟨value, by rw [List.mem_singleton.mp he]⟩⟩

/-- The only label that nobody reads is the one that was added. -/
theorem blankUnreadLabel_labelled {value : String} (h : BlankUnreadLabel (labelledWorkflow value)) :
    strip value = "" := by
  obtain ⟨e, he, _, s, hs, hblank⟩ := h
  rw [List.mem_singleton.mp he, Json.str.injEq] at hs
  rw [hs]
  exact hblank

/-- A label with a value changes nothing. -/
theorem same_outcome_iff_labelled :
    SameOutcome Reference.platform (Reference.workflow "u-1" Reference.succeeded)
      (labelledWorkflow "ci") "alpha" "" := by
  have hblank : ¬ BlankUnreadLabel (Reference.workflow "u-1" Reference.succeeded) := by
    rintro ⟨e, he, _⟩
    exact absurd he List.not_mem_nil
  have hblank' : ¬ BlankUnreadLabel (labelledWorkflow "ci") :=
    fun h => absurd (blankUnreadLabel_labelled h) (by decide)
  exact (same_outcome_iff (agree_labelled "ci") distinctKeys_workflow (distinctKeys_labelled "ci")
    (Or.inl rfl) (stringLabels_labelled "ci")).mpr (.inr (iff_of_false hblank hblank'))

/-- An empty label makes the cluster that lists the run unavailable. -/
theorem blank_label_discards_cluster :
    AgreeOnRead (Reference.workflow "u-1" Reference.succeeded) (labelledWorkflow "") ∧
      StringLabels (labelledWorkflow "") ∧
      ¬ SameOutcome Reference.platform (Reference.workflow "u-1" Reference.succeeded)
        (labelledWorkflow "") "alpha" "" ∧
      fetchWorkflows Reference.platform ""
          [(⟨"alpha", none, none⟩, .ok ([labelledWorkflow ""], true))] =
        .ok ([], [⟨"alpha", false, 0⟩]) := by
  refine ⟨agree_labelled "", stringLabels_labelled "", fun hsame => ?_, rfl⟩
  obtain ⟨row, hrow⟩ : ∃ row, toRow Reference.platform
      (Reference.workflow "u-1" Reference.succeeded) "alpha" "" = .ok row := ⟨_, rfl⟩
  obtain ⟨e, he⟩ : ∃ e, toRow Reference.platform (labelledWorkflow "") "alpha" "" = .error e :=
    ⟨_, rfl⟩
  have hrow' := (hsame row).mp hrow
  rw [he] at hrow'
  exact absurd hrow' (by simp)

end ArgoExporter.Workflows
