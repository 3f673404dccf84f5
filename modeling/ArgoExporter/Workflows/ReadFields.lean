/-
  ArgoExporter.Workflows.ReadFields

  What a row depends on: a fixed list of fields, and the nodes through the step
  that failed.  Two objects that agree on them have the same row when both are
  accepted.
-/

import ArgoExporter.Workflows.Timestamps

namespace ArgoExporter.Workflows

open ArgoExporter.Py
open ArgoExporter.ParquetIo

/-! ## The fields of a row -/

/-- The labels the exporter reads. -/
def readLabels : List String :=
  [labelTemplate, labelClusterTemplate, labelCron, labelCreator, labelSensor, labelTrigger]

/-- The two objects agree on the fields that go into a row, apart from the nodes. -/
structure SameReads (wf wf' : Json) : Prop where
  identity : ∀ field ∈ ["uid", "name", "namespace"],
    (wf.get "metadata").get? field = (wf'.get "metadata").get? field
  createdAt : (wf.get "metadata").get "creationTimestamp" =
    (wf'.get "metadata").get "creationTimestamp"
  labels : ∀ name ∈ readLabels, ((wf.get "metadata").get "labels").get name =
    ((wf'.get "metadata").get "labels").get name
  templateRef : ∀ field ∈ ["name", "clusterScope"],
    ((wf.get "spec").get "workflowTemplateRef").get field =
      ((wf'.get "spec").get "workflowTemplateRef").get field
  status : ∀ field ∈ statusFields, (wf.get "status").get field = (wf'.get "status").get field
  resources : ∀ field ∈ ["cpu", "memory"],
    ((wf.get "status").get "resourcesDuration").get field =
      ((wf'.get "status").get "resourcesDuration").get field

section Congr

variable {wf wf' : Json} (h : SameReads wf wf')

include h

theorem templateOf_congr : templateOf wf = templateOf wf' := by
  unfold templateOf
  simp only [orEmptyDict_get]
  rw [h.templateRef "name" (by decide), h.templateRef "clusterScope" (by decide),
    h.labels labelClusterTemplate (by decide), h.labels labelTemplate (by decide)]

theorem nonEmptyLabel_congr {name : String} (hname : name ∈ readLabels) :
    nonEmptyLabel (orEmptyDict ((orEmptyDict (wf.get "metadata")).get "labels")) name =
      nonEmptyLabel (orEmptyDict ((orEmptyDict (wf'.get "metadata")).get "labels")) name := by
  unfold nonEmptyLabel
  simp only [orEmptyDict_get]
  rw [h.labels name hname]

theorem triggerOf_congr : triggerOf wf = triggerOf wf' := by
  unfold triggerOf
  dsimp only
  rw [nonEmptyLabel_congr h (by decide : labelCron ∈ readLabels),
    nonEmptyLabel_congr h (by decide : labelSensor ∈ readLabels),
    nonEmptyLabel_congr h (by decide : labelTrigger ∈ readLabels),
    nonEmptyLabel_congr h (by decide : labelCreator ∈ readLabels)]

variable {Bytes : Type} (py : Platform Bytes)

theorem assembleRow_congr (clusterName observedAt : String) (step : Json × Json)
    (createdAt startedAt finishedAt : Option String) (duration : Option Int) :
    assembleRow py wf clusterName observedAt step createdAt startedAt finishedAt duration =
      assembleRow py wf' clusterName observedAt step createdAt startedAt finishedAt duration := by
  unfold assembleRow
  simp only [orEmptyDict_get, Json.getD, orEmptyDict_get?]
  rw [templateOf_congr h, triggerOf_congr h, h.identity "uid" (by decide),
    h.identity "name" (by decide), h.identity "namespace" (by decide),
    h.status "phase" (by decide), h.status "message" (by decide), h.status "progress" (by decide),
    h.resources "cpu" (by decide), h.resources "memory" (by decide)]

variable {py}

/-- Objects that agree have the same row, if the second is valid and the same step failed. -/
theorem toRow_congr {clusterName observedAt : String} {row : SnapshotRow}
    (hvalid : ValidWorkflow wf')
    (hstep : ∀ step, failedStep py wf = .ok step → failedStep py wf' = .ok step)
    (hrow : toRow py wf clusterName observedAt = .ok row) :
    toRow py wf' clusterName observedAt = .ok row := by
  obtain ⟨_, step, createdAt, startedAt, finishedAt, duration, hfailed, hcreated, hstarted,
    hfinished, hduration, rfl⟩ := toRow_eq_ok_iff.mp hrow
  rw [h.createdAt] at hcreated
  rw [h.status "startedAt" (by decide)] at hstarted hduration
  rw [h.status "finishedAt" (by decide)] at hfinished hduration
  exact toRow_eq_ok_iff.mpr ⟨hvalid, step, createdAt, startedAt, finishedAt, duration,
    hstep step hfailed, hcreated, hstarted, hfinished, hduration,
    assembleRow_congr h py clusterName observedAt step createdAt startedAt finishedAt duration⟩

/-- Two valid objects that agree have the same row, or the same exception, if the same step
    failed. -/
theorem toRow_eq_of_sameReads (hvalid : ValidWorkflow wf) (hvalid' : ValidWorkflow wf')
    (hstep : failedStep py wf = failedStep py wf') (clusterName observedAt : String) :
    toRow py wf clusterName observedAt = toRow py wf' clusterName observedAt := by
  unfold toRow
  rw [(validateWorkflow_eq_ok_iff py wf none).mpr hvalid,
    (validateWorkflow_eq_ok_iff py wf' none).mpr hvalid', ok_bind, ok_bind, hstep]
  simp only [orEmptyDict_get]
  rw [h.createdAt, h.status "startedAt" (by decide), h.status "finishedAt" (by decide)]
  simp only [assembleRow_congr h]

end Congr

theorem SameReads.symm {wf wf' : Json} (h : SameReads wf wf') : SameReads wf' wf where
  identity := fun field hf => (h.identity field hf).symm
  createdAt := h.createdAt.symm
  labels := fun name hn => (h.labels name hn).symm
  templateRef := fun field hf => (h.templateRef field hf).symm
  status := fun field hf => (h.status field hf).symm
  resources := fun field hf => (h.resources field hf).symm

theorem SameReads.trans {wf wf' wf'' : Json} (h : SameReads wf wf') (h' : SameReads wf' wf'') :
    SameReads wf wf'' where
  identity := fun field hf => (h.identity field hf).trans (h'.identity field hf)
  createdAt := h.createdAt.trans h'.createdAt
  labels := fun name hn => (h.labels name hn).trans (h'.labels name hn)
  templateRef := fun field hf => (h.templateRef field hf).trans (h'.templateRef field hf)
  status := fun field hf => (h.status field hf).trans (h'.status field hf)
  resources := fun field hf => (h.resources field hf).trans (h'.resources field hf)

/-! ## One field of the status -/

/-- The object with this value in a field of its status. -/
def withStatusField (wf : Json) (field : String) (value : Json) : Json :=
  wf.set "status" ((orEmptyDict (wf.get "status")).set field value)

theorem isDict_orEmptyDict {status : Json} (h : ValidStatus status) :
    (orEmptyDict status).isDict = true := by
  rcases h with hnull | ⟨hdict, _⟩
  · rw [hnull]
    rfl
  · unfold orEmptyDict Json.or
    split
    · exact hdict
    · rfl

section StatusField

variable {wf : Json} {field : String} (value : Json)

theorem get_withStatusField {key : String} (h : key ≠ "status") :
    (withStatusField wf field value).get key = wf.get key := by
  rw [withStatusField, Json.get, Json.get?_set_ne _ _ h]
  rfl

theorem status_withStatusField (hdict : wf.isDict = true) :
    (withStatusField wf field value).get "status" =
      (orEmptyDict (wf.get "status")).set field value := by
  rw [withStatusField, Json.get, Json.get?_set_self hdict]
  rfl

/-- The field has the value. -/
theorem statusField_self (h : ValidWorkflow wf) :
    ((withStatusField wf field value).get "status").get field = value := by
  rw [status_withStatusField value h.isDict, Json.get, Json.get?_set_self
    (isDict_orEmptyDict h.status)]
  rfl

/-- The other fields of the status are as they were. -/
theorem statusField_ne (hdict : wf.isDict = true) {key : String} (h : key ≠ field) :
    ((withStatusField wf field value).get "status").get key = (wf.get "status").get key := by
  rw [status_withStatusField value hdict, Json.get, Json.get?_set_ne _ _ h, orEmptyDict_get?]
  rfl

/-- A field that goes into a row only through the nodes leaves the rest of the row alone. -/
theorem sameReads_withStatusField (hdict : wf.isDict = true)
    (hfield : field ∉ "resourcesDuration" :: statusFields) :
    SameReads wf (withStatusField wf field value) := by
  have hmetadata : (withStatusField wf field value).get "metadata" = wf.get "metadata" :=
    get_withStatusField value (by decide)
  have hspec : (withStatusField wf field value).get "spec" = wf.get "spec" :=
    get_withStatusField value (by decide)
  have hother {key : String} (hkey : key ∈ "resourcesDuration" :: statusFields) :
      ((withStatusField wf field value).get "status").get key = (wf.get "status").get key :=
    statusField_ne value hdict (by rintro rfl; exact hfield hkey)
  refine ⟨?_, ?_, ?_, ?_, ?_, ?_⟩
  · rw [hmetadata]
    exact fun _ _ => rfl
  · rw [hmetadata]
  · rw [hmetadata]
    exact fun _ _ => rfl
  · rw [hspec]
    exact fun _ _ => rfl
  · intro key hkey
    exact (hother (List.mem_cons_of_mem _ hkey)).symm
  · rw [hother List.mem_cons_self]
    exact fun _ _ => rfl

/-- A valid object stays valid under such a field, if the field is not the nodes or holds valid
    ones. -/
theorem validWorkflow_withStatusField (h : ValidWorkflow wf)
    (hfield : field ∉ "resourcesDuration" :: statusFields)
    (hvalue : field = "nodes" → ValidNodes value) :
    ValidWorkflow (withStatusField wf field value) where
  isDict := by
    rw [withStatusField, Json.isDict_set]
    exact h.isDict
  metadata := by
    rw [get_withStatusField value (by decide)]
    exact h.metadata
  spec := by
    rw [get_withStatusField value (by decide)]
    exact h.spec
  status := by
    have hother {key : String} (hkey : key ∈ "resourcesDuration" :: statusFields) :
        ((withStatusField wf field value).get "status").get key = (wf.get "status").get key :=
      statusField_ne value h.isDict (by rintro rfl; exact hfield hkey)
    refine Or.inr ⟨?_, ?_, ?_, ?_⟩
    · rw [status_withStatusField value h.isDict, Json.isDict_set]
      exact isDict_orEmptyDict h.status
    · intro key hkey
      rw [hother (List.mem_cons_of_mem _ hkey)]
      exact isText_status h hkey
    · rw [hother List.mem_cons_self]
      rcases h.status with hnull | ⟨_, _, hresources, _⟩
      · rw [hnull]
        exact Or.inl rfl
      · exact hresources
    · by_cases hnodes : field = "nodes"
      · subst hnodes
        rw [statusField_self value h]
        exact hvalue rfl
      · rw [statusField_ne value h.isDict (Ne.symm hnodes)]
        rcases h.status with hnull | ⟨_, _, _, hvalid⟩
        · rw [hnull]
          exact Or.inl rfl
        · exact hvalid

end StatusField

end ArgoExporter.Workflows
