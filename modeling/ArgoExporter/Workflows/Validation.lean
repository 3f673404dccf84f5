/-
  ArgoExporter.Workflows.Validation

  What an accepted Workflow object looks like: one characterization for each
  validator of `workflows.py`, gathered in `ValidWorkflow`.
-/

import ArgoExporter.Workflows

namespace ArgoExporter.Workflows

open ArgoExporter.Py
open ArgoExporter.ParquetIo

/-- A string that is not blank. -/
def IsNonBlank (v : Json) : Prop := ∃ s, v = .str s ∧ strip s ≠ ""

/-- A string or null. -/
abbrev IsText (v : Json) : Prop := ColType.string.Holds v

theorem IsNonBlank.isText {v : Json} (h : IsNonBlank v) : IsText v := by
  obtain ⟨s, rfl, _⟩ := h
  exact Or.inr ⟨s, rfl⟩

theorem isText_str (s : String) : IsText (.str s) := Or.inr ⟨s, rfl⟩

theorem isText_null : IsText .null := Or.inl rfl

theorem isText_ofStr? (s : Option String) : IsText (Json.ofStr? s) := by
  cases s with
  | none => exact isText_null
  | some s => exact isText_str s

theorem isText_or {a b : Json} (ha : IsText a) (hb : IsText b) : IsText (a.or b) := by
  unfold Json.or
  split
  · exact ha
  · exact hb

theorem get_eq_null_of_not_has {v : Json} {k : String} (h : ¬ v.has k = true) : v.get k = .null := by
  unfold Json.has at h
  unfold Json.get
  cases hk : v.get? k with
  | none => rfl
  | some w => simp [hk] at h

/-! ## Elementary checks -/

section Elementary

variable (value : Json) (location field : String)

theorem requireWorkflowMapping_eq_ok_iff :
    requireWorkflowMapping value location field = .ok () ↔ value.isDict = true := by
  unfold requireWorkflowMapping
  split
  · rename_i h
    exact ⟨fun _ => h, fun _ => rfl⟩
  · rename_i h
    exact ⟨fun he => absurd he (by simp [malformed]), fun hd => absurd hd h⟩

theorem requireWorkflowString_required :
    requireWorkflowString value location field true = .ok () ↔ IsNonBlank value := by
  unfold IsNonBlank
  cases value with
  | str s =>
      by_cases h : strip s = ""
      · simp [requireWorkflowString, malformed, h]
      · simp [requireWorkflowString, h]
  | _ => simp [requireWorkflowString, malformed]

theorem requireWorkflowString_optional :
    requireWorkflowString value location field false = .ok () ↔ IsText value := by
  cases value with
  | null => exact ⟨fun _ => isText_null, fun _ => rfl⟩
  | str s =>
      refine ⟨fun _ => isText_str s, fun _ => ?_⟩
      simp [requireWorkflowString]
  | _ => simp [requireWorkflowString, malformed, IsText, ColType.Holds]

theorem requireOptionalStrings_eq_ok_iff (pfx : String) (names : List String) :
    requireOptionalStrings value location pfx names = .ok () ↔
      ∀ name ∈ names, IsText (value.get name) := by
  unfold requireOptionalStrings
  rw [forM_eq_ok_iff]
  refine forall₂_congr fun name _ => ?_
  by_cases h : value.has name = true
  · rw [if_pos h]
    exact requireWorkflowString_optional _ _ _
  · rw [if_neg h, get_eq_null_of_not_has h]
    exact ⟨fun _ => isText_null, fun _ => rfl⟩

/-- The checks of an optional part are skipped when it is null. -/
theorem skipNull_eq_ok_iff {checks : Except Exc Unit} :
    (if value.isNull = true then .ok () else checks) = .ok () ↔
      value = .null ∨ checks = .ok () := by
  by_cases h : value.isNull = true
  · rw [if_pos h]
    exact ⟨fun _ => Or.inl ((Json.isNull_iff _).mp h), fun _ => rfl⟩
  · have hnull : ¬ value = .null := fun hn => h ((Json.isNull_iff _).mpr hn)
    rw [if_neg h]
    exact ⟨Or.inr, fun h => h.resolve_left hnull⟩

/-- An optional field is rejected when it is there and of another kind. -/
theorem rejectUnless_eq_ok_iff {present kind : Prop} [Decidable present] [Decidable kind]
    (detail : String) :
    (if present ∧ ¬ kind then malformed location detail else .ok ()) = .ok () ↔
      (present → kind) := by
  rw [← Decidable.not_and_not_right]
  split
  · rename_i h
    exact ⟨fun he => absurd he (by simp [malformed]), fun hnot => absurd h hnot⟩
  · rename_i h
    exact ⟨fun _ => h, fun _ => rfl⟩

end Elementary

/-! ## The parts of a Workflow object -/

section Parts

variable {Bytes : Type} (py : Platform Bytes) (location : String)

/-- An absent map, or a map with non-blank string values. -/
def ValidLabels (labels : Json) : Prop :=
  labels = .null ∨ labels.isDict = true ∧ ∀ e ∈ labels.fields, IsNonBlank e.2

def ValidMetadata (metadata : Json) : Prop :=
  metadata.isDict = true ∧
    (∀ field ∈ ["uid", "name", "namespace"], IsNonBlank (metadata.get field)) ∧
    ValidLabels (metadata.get "labels")

theorem validateMetadata_eq_ok_iff (metadata : Json) :
    validateMetadata py metadata location = .ok () ↔ ValidMetadata metadata := by
  unfold validateMetadata ValidMetadata ValidLabels
  rw [seq_eq_ok_iff, seq_eq_ok_iff, requireWorkflowMapping_eq_ok_iff, forM_eq_ok_iff]
  refine and_congr_right fun _ => and_congr ?_ ?_
  · exact forall₂_congr fun field _ => requireWorkflowString_required _ _ _
  · refine (skipNull_eq_ok_iff (metadata.get "labels")).trans (or_congr_right ?_)
    rw [seq_eq_ok_iff, requireWorkflowMapping_eq_ok_iff, forM_eq_ok_iff]
    simp only [requireWorkflowString_required]

/-- An absent reference, or one with a non-blank name and a boolean scope, if any. -/
def ValidTemplateRef (ref : Json) : Prop :=
  ref = .null ∨ ref.isDict = true ∧ IsNonBlank (ref.get "name") ∧
    (ref.has "clusterScope" = true → (ref.get "clusterScope").isBool = true)

def ValidSpec (spec : Json) : Prop :=
  spec.isDict = true ∧ ValidTemplateRef (spec.get "workflowTemplateRef")

theorem validateSpec_eq_ok_iff (spec : Json) :
    validateSpec spec location = .ok () ↔ ValidSpec spec := by
  unfold validateSpec ValidSpec ValidTemplateRef
  rw [seq_eq_ok_iff, requireWorkflowMapping_eq_ok_iff]
  refine and_congr_right fun _ => ?_
  refine (skipNull_eq_ok_iff (spec.get "workflowTemplateRef")).trans (or_congr_right ?_)
  rw [seq_eq_ok_iff, seq_eq_ok_iff, requireWorkflowMapping_eq_ok_iff,
    requireWorkflowString_required]
  exact and_congr_right fun _ => and_congr_right fun _ => rejectUnless_eq_ok_iff _ _

/-- An absent map, or one whose cpu and memory, if any, are integers. -/
def ValidResources (resources : Json) : Prop :=
  resources = .null ∨ resources.isDict = true ∧
    ∀ field ∈ ["cpu", "memory"], resources.has field = true → (resources.get field).isInt = true

theorem validateResources_eq_ok_iff (resources : Json) :
    validateResources resources location = .ok () ↔ ValidResources resources := by
  unfold validateResources ValidResources
  refine (skipNull_eq_ok_iff resources).trans (or_congr_right ?_)
  rw [seq_eq_ok_iff, requireWorkflowMapping_eq_ok_iff, forM_eq_ok_iff]
  exact and_congr_right fun _ => forall₂_congr fun field _ => rejectUnless_eq_ok_iff _ _

/-- An object whose read fields are strings or null. -/
def ValidNode (node : Json) : Prop :=
  node.isDict = true ∧ ∀ field ∈ nodeFields, IsText (node.get field)

def ValidNodes (nodes : Json) : Prop :=
  nodes = .null ∨ nodes.isDict = true ∧ ∀ e ∈ nodes.fields, ValidNode e.2

theorem validateNodes_eq_ok_iff (nodes : Json) :
    validateNodes py nodes location = .ok () ↔ ValidNodes nodes := by
  unfold validateNodes ValidNodes
  refine (skipNull_eq_ok_iff nodes).trans (or_congr_right ?_)
  rw [seq_eq_ok_iff, requireWorkflowMapping_eq_ok_iff, forM_eq_ok_iff]
  refine and_congr_right fun _ => forall₂_congr fun e _ => ?_
  rw [seq_eq_ok_iff, requireWorkflowMapping_eq_ok_iff, requireOptionalStrings_eq_ok_iff]
  exact Iff.rfl

/-- The status fields the exporter reads as strings. -/
def statusFields : List String := ["phase", "message", "progress", "startedAt", "finishedAt"]

def ValidStatus (status : Json) : Prop :=
  status = .null ∨ status.isDict = true ∧ (∀ field ∈ statusFields, IsText (status.get field)) ∧
    ValidResources (status.get "resourcesDuration") ∧ ValidNodes (status.get "nodes")

theorem validateStatus_eq_ok_iff (status : Json) :
    validateStatus py status location = .ok () ↔ ValidStatus status := by
  unfold validateStatus ValidStatus
  refine (skipNull_eq_ok_iff status).trans (or_congr_right ?_)
  rw [seq_eq_ok_iff, seq_eq_ok_iff, seq_eq_ok_iff, requireWorkflowMapping_eq_ok_iff,
    requireOptionalStrings_eq_ok_iff, validateResources_eq_ok_iff, validateNodes_eq_ok_iff]
  exact Iff.rfl

end Parts

/-! ## Whole objects -/

/-- A Workflow object that passes validation. -/
structure ValidWorkflow (wf : Json) : Prop where
  isDict : wf.isDict = true
  metadata : ValidMetadata (wf.get "metadata")
  spec : ValidSpec (wf.get "spec")
  status : ValidStatus (wf.get "status")

/-- Validation accepts exactly the valid objects, whatever index it reports errors under. -/
theorem validateWorkflow_eq_ok_iff {Bytes : Type} (py : Platform Bytes) (wf : Json)
    (index : Option Nat) : validateWorkflow py wf index = .ok () ↔ ValidWorkflow wf := by
  unfold validateWorkflow
  dsimp only
  by_cases h : wf.isDict = true
  · rw [if_neg (not_not_intro h), seq_eq_ok_iff, seq_eq_ok_iff, validateMetadata_eq_ok_iff,
      validateSpec_eq_ok_iff, validateStatus_eq_ok_iff]
    exact ⟨fun ⟨hm, hsp, hst⟩ => ⟨h, hm, hsp, hst⟩, fun hv => ⟨hv.metadata, hv.spec, hv.status⟩⟩
  · rw [if_pos h]
    exact ⟨fun he => absurd he (by simp [malformed]), fun hv => absurd hv.isDict h⟩

end ArgoExporter.Workflows
