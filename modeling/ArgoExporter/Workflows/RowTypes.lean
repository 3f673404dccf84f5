/-
  ArgoExporter.Workflows.RowTypes

  Which Workflow objects give a row that fits the published schema.  Every
  column is covered by validation or by the way it is computed, except the two
  integer counters, whose size nobody checks, and the failing step taken from
  `compressedNodes`, whose nodes are not validated.
-/

import ArgoExporter.Reference
import ArgoExporter.Workflows.FailedStep
import ArgoExporter.Workflows.Validation

namespace ArgoExporter.Workflows

open ArgoExporter.Py
open ArgoExporter.ParquetIo

/-! ## Reading through `or {}` -/

theorem get?_eq_none_of_falsy {v : Json} (h : ¬ v.truthy = true) (k : String) :
    v.get? k = none := by
  cases v with
  | obj fields =>
      cases fields with
      | nil => rfl
      | cons e fields => exact absurd rfl h
  | _ => rfl

/-- Replacing a falsy value by an empty object changes no lookup. -/
@[simp] theorem orEmptyDict_get? (v : Json) (k : String) : (orEmptyDict v).get? k = v.get? k := by
  unfold orEmptyDict Json.or
  split
  · rfl
  · rename_i h
    rw [get?_eq_none_of_falsy h]
    rfl

@[simp] theorem orEmptyDict_get (v : Json) (k : String) : (orEmptyDict v).get k = v.get k := by
  rw [Json.get, Json.get, orEmptyDict_get?]

@[simp] theorem orEmptyDict_getD (v : Json) (k : String) (d : Json) :
    (orEmptyDict v).getD k d = v.getD k d := by
  rw [Json.getD, Json.getD, orEmptyDict_get?]

theorem getD_of_isNonBlank {v : Json} {k : String} (d : Json) (h : IsNonBlank (v.get k)) :
    v.getD k d = v.get k := by
  obtain ⟨s, hs, _⟩ := h
  unfold Json.get at *
  unfold Json.getD
  cases hk : v.get? k with
  | none => simp [hk] at hs
  | some w => rfl

theorem mem_fields_of_get? {v w : Json} {k : String} (h : v.get? k = some w) :
    (k, w) ∈ v.fields := by
  cases v with
  | obj fields =>
      obtain ⟨e, he, rfl⟩ := Option.map_eq_some_iff.mp h
      have hname : e.1 = k := by simpa using List.find?_some he
      rw [← hname]
      exact List.mem_of_find?_eq_some he
  | _ => exact absurd h (by simp [Json.get?])

theorem isText_get {v : Json} (h : ∀ e ∈ v.fields, IsText e.2) (k : String) :
    IsText (v.get k) := by
  rw [Json.get]
  cases hk : v.get? k with
  | none => exact isText_null
  | some w => exact h _ (mem_fields_of_get? hk)

/-! ## The parts of a row -/

variable {Bytes : Type} {py : Platform Bytes}

/-- A row is made of a validated object and of the parts that are computed from it. -/
theorem toRow_eq_ok_iff {wf : Json} {clusterName observedAt : String} {row : SnapshotRow} :
    toRow py wf clusterName observedAt = .ok row ↔
      ValidWorkflow wf ∧ ∃ step createdAt startedAt finishedAt duration,
        failedStep py wf = .ok step ∧
        normalizeTimestamp ((wf.get "metadata").get "creationTimestamp") = .ok createdAt ∧
        normalizeTimestamp ((wf.get "status").get "startedAt") = .ok startedAt ∧
        normalizeTimestamp ((wf.get "status").get "finishedAt") = .ok finishedAt ∧
        durationSeconds ((wf.get "status").get "startedAt") ((wf.get "status").get "finishedAt") =
          .ok duration ∧
        row = assembleRow py wf clusterName observedAt step createdAt startedAt finishedAt
          duration := by
  unfold toRow
  dsimp only
  simp only [orEmptyDict_get]
  constructor
  · intro h
    obtain ⟨⟨⟩, hvalid, h⟩ := bind_eq_ok.mp h
    obtain ⟨step, hstep, h⟩ := bind_eq_ok.mp h
    obtain ⟨createdAt, hcreated, h⟩ := bind_eq_ok.mp h
    obtain ⟨startedAt, hstarted, h⟩ := bind_eq_ok.mp h
    obtain ⟨finishedAt, hfinished, h⟩ := bind_eq_ok.mp h
    obtain ⟨duration, hduration, h⟩ := bind_eq_ok.mp h
    rw [pure_eq_ok, Except.ok.injEq] at h
    exact ⟨(validateWorkflow_eq_ok_iff py wf none).mp hvalid, step, createdAt, startedAt,
      finishedAt, duration, hstep, hcreated, hstarted, hfinished, hduration, h.symm⟩
  · rintro ⟨hvalid, step, createdAt, startedAt, finishedAt, duration, hstep, hcreated, hstarted,
      hfinished, hduration, rfl⟩
    rw [(validateWorkflow_eq_ok_iff py wf none).mpr hvalid, hstep, hcreated, hstarted, hfinished,
      hduration]
    rfl

theorem toRow_eq_ok {wf : Json} {clusterName observedAt : String} {row : SnapshotRow}
    (h : toRow py wf clusterName observedAt = .ok row) :
    ValidWorkflow wf ∧ ∃ step createdAt startedAt finishedAt duration,
      failedStep py wf = .ok step ∧
      durationSeconds ((wf.get "status").get "startedAt") ((wf.get "status").get "finishedAt") =
        .ok duration ∧
      row = assembleRow py wf clusterName observedAt step createdAt startedAt finishedAt
        duration := by
  obtain ⟨hvalid, step, createdAt, startedAt, finishedAt, duration, hstep, _, _, _, hduration,
    hrow⟩ := toRow_eq_ok_iff.mp h
  exact ⟨hvalid, step, createdAt, startedAt, finishedAt, duration, hstep, hduration, hrow⟩

/-- Two instants of the years 1 to 9999 are less than 2^39 seconds apart. -/
theorem abs_totalSecondsBetween_le (finish start : Naive) :
    |totalSecondsBetween finish start| ≤ (2 ^ 39 : Int) := by
  have hf := finish.inRange
  have hs := start.inRange
  have hmicros : |(finish.micros : Int) - start.micros| ≤ (2 ^ 39 - 1) * 1000000 := by
    unfold maxMicros microsPerDay at hf hs
    rw [abs_le]
    omega
  -- the exact difference leaves room for its rounding
  have hexact : |(((finish.micros : Int) - start.micros : Int) : Rat) / microsPerSecond| ≤
      2 ^ 39 - 1 := by
    have hcast : |(((finish.micros : Int) - start.micros : Int) : Rat)| ≤
        (2 ^ 39 - 1) * 1000000 := by
      exact_mod_cast hmicros
    have hsecond : |(microsPerSecond : Rat)| = 1000000 := by norm_num [microsPerSecond]
    rw [abs_div, hsecond, div_le_iff₀ (by norm_num)]
    exact hcast
  have hmoved := Lib.Binary64.abs_round_sub_le (lt_of_le_of_lt hexact (by norm_num))
  have htriangle := abs_sub_abs_le_abs_sub (totalSecondsBetween finish start)
    ((((finish.micros : Int) - start.micros : Int) : Rat) / microsPerSecond)
  unfold totalSecondsBetween at htriangle ⊢
  push_cast at htriangle hmoved hexact ⊢
  linarith

theorem durationSeconds_holds {a b : Json} {duration : Option Int}
    (h : durationSeconds a b = .ok duration) :
    ColType.int64.Holds (Json.ofInt? duration) := by
  unfold durationSeconds at h
  split at h
  · obtain ⟨finish, _, h⟩ := bind_eq_ok.mp h
    obtain ⟨start, _, h⟩ := bind_eq_ok.mp h
    rw [pure_eq_ok, Except.ok.injEq] at h
    subst h
    obtain ⟨hlow, hhigh⟩ := truncate_mem_Icc (abs_totalSecondsBetween_le finish start)
    exact Or.inr ⟨_, rfl, by omega, by omega⟩
  · rw [Except.ok.injEq] at h
    subst h
    exact Or.inl rfl

theorem isText_templateOf {wf : Json} (h : ValidWorkflow wf) :
    IsText (templateOf wf).1 ∧ IsText (templateOf wf).2 := by
  have hlabel : ∀ name, IsText (((wf.get "metadata").get "labels").get name) := by
    intro name
    rcases h.metadata.2.2 with hnull | ⟨_, hall⟩
    · rw [hnull]
      exact isText_null
    · exact isText_get (fun e he => (hall e he).isText) name
  have href : IsText (((wf.get "spec").get "workflowTemplateRef").get "name") := by
    rcases h.spec.2 with hnull | ⟨_, hname, _⟩
    · rw [hnull]
      exact isText_null
    · exact hname.isText
  unfold templateOf
  dsimp only
  simp only [orEmptyDict_get]
  split
  · exact ⟨href, isText_str _⟩
  · split
    · exact ⟨hlabel _, isText_str _⟩
    · split
      · exact ⟨hlabel _, isText_str _⟩
      · exact ⟨isText_null, isText_null⟩

theorem isText_status {wf : Json} (h : ValidWorkflow wf) {field : String}
    (hf : field ∈ statusFields) : IsText ((wf.get "status").get field) := by
  rcases h.status with hnull | ⟨_, hfields, _⟩
  · rw [hnull]
    exact isText_null
  · exact hfields field hf

theorem isText_failureColumns (stepMessage message : Json) :
    IsText (FailureTaxonomy.failureColumns py stepMessage message).failureFingerprint ∧
      IsText (FailureTaxonomy.failureColumns py stepMessage message).failureClass :=
  ⟨isText_ofStr? _, isText_ofStr? _⟩

/-! ## The failing step -/

theorem nodesOf_of_nodes {status : Json} {entries : List (String × Json)}
    (h : status.get "nodes" = .obj entries) : nodesOf py status = .ok entries := by
  rw [nodesOf, h]

theorem nodesOf_of_null {status : Json} (h : status.get "nodes" = .null) :
    nodesOf py status = decodeCompressedNodes py (status.get "compressedNodes") := by
  rw [nodesOf, h]

theorem nodesOf_orEmptyDict (status : Json) : nodesOf py (orEmptyDict status) = nodesOf py status := by
  simp only [nodesOf, orEmptyDict_get]

/-- `failed_step` sees an object through its nodes only. -/
theorem failedStep_congr {wf wf' : Json}
    (h : nodesOf py (wf.get "status") = nodesOf py (wf'.get "status")) :
    failedStep py wf = failedStep py wf' := by
  unfold failedStep
  rw [nodesOf_orEmptyDict, nodesOf_orEmptyDict, h]

theorem EarliestFailure.mem_failures {nodes : List (String × Json)} {e : String × Json}
    (h : EarliestFailure nodes e) : e ∈ failures nodes := by
  obtain ⟨before, after, hsplit, _⟩ := h
  rw [hsplit]
  exact List.mem_append_right before List.mem_cons_self

theorem EarliestFailure.mem {nodes : List (String × Json)} {e : String × Json}
    (h : EarliestFailure nodes e) : e ∈ nodes :=
  List.mem_of_mem_filter h.mem_failures

theorem ValidNode.isText {node : Json} (h : ValidNode node) :
    IsText (stepName node) ∧ IsText (node.get "message") :=
  ⟨isText_or (h.2 _ (by decide)) (h.2 _ (by decide)), h.2 _ (by decide)⟩

/-- The failing step that `compressedNodes` gives, if it is looked at, has a name and a message
    that are strings or null. -/
def CompressedStepIsText (py : Platform Bytes) (status : Json) : Prop :=
  status.get "nodes" = .null → ∀ nodes,
    decodeCompressedNodes py (status.get "compressedNodes") = .ok nodes →
    ∀ e, EarliestFailure nodes e → IsText (stepName e.2) ∧ IsText (e.2.get "message")

/-- The reported step is text exactly when no other value comes from `compressedNodes`. -/
theorem isText_failedStep_iff {wf : Json} {step : Json × Json} (hvalid : ValidWorkflow wf)
    (h : failedStep py wf = .ok step) :
    IsText step.1 ∧ IsText step.2 ↔ CompressedStepIsText py (wf.get "status") := by
  have hpair : failedStep py wf = .ok (step.1, step.2) := h
  obtain ⟨nodes, hnodes, hstep⟩ := failedStep_eq_ok hpair
  -- the compressed nodes are read only when the plain ones are null
  have hdecode : (wf.get "status").get "nodes" = .null →
      decodeCompressedNodes py ((wf.get "status").get "compressedNodes") = .ok nodes := by
    intro hnull
    rw [nodesOf_of_null (by rw [orEmptyDict_get, hnull]), orEmptyDict_get] at hnodes
    exact hnodes
  constructor
  · rintro ⟨hname, hmessage⟩ hnull nodes' hnodes' e he
    rw [hdecode hnull, Except.ok.injEq] at hnodes'
    subst hnodes'
    rcases hstep with ⟨hnone, _⟩ | ⟨e', he', hn, hm⟩
    · obtain ⟨before, after, hsplit, _⟩ := he
      rw [hnone] at hsplit
      exact absurd hsplit (by simp)
    · rw [he.unique he', ← hn, ← hm]
      exact ⟨hname, hmessage⟩
  · intro hcond
    rcases hstep with ⟨_, hn, hm⟩ | ⟨e, he, hn, hm⟩
    · rw [hn, hm]
      exact ⟨isText_null, isText_null⟩
    · rw [hn, hm]
      by_cases hnull : (wf.get "status").get "nodes" = .null
      · exact hcond hnull nodes (hdecode hnull) e he
      -- plain nodes were validated field by field
      · have hvalidNodes : ValidNodes ((wf.get "status").get "nodes") := by
          rcases hvalid.status with hs | ⟨_, _, _, hn'⟩
          · exact absurd (by rw [hs]; rfl) hnull
          · exact hn'
        rcases hvalidNodes with hn' | ⟨hdict, hall⟩
        · exact absurd hn' hnull
        · obtain ⟨entries, hentries⟩ := (Json.isDict_iff _).mp hdict
          rw [nodesOf_of_nodes (by rw [orEmptyDict_get, hentries]), Except.ok.injEq] at hnodes
          subst hnodes
          rw [hentries] at hall
          exact (hall e he.mem).isText

/-! ## Whole rows -/

/-- The counters are absent or 64-bit, and a step taken from `compressedNodes` is text. -/
structure FitsColumns (py : Platform Bytes) (wf : Json) : Prop where
  cpu : ColType.int64.Holds (((wf.get "status").get "resourcesDuration").get "cpu")
  memory : ColType.int64.Holds (((wf.get "status").get "resourcesDuration").get "memory")
  step : CompressedStepIsText py (wf.get "status")

/-- A row fits the schema exactly when its Workflow object meets `FitsColumns`. -/
theorem fits_toRow_iff {wf : Json} {clusterName observedAt : String} {row : SnapshotRow}
    (h : toRow py wf clusterName observedAt = .ok row) :
    Record.Fits workflowsSchema row.toRecord ↔ FitsColumns py wf := by
  obtain ⟨hvalid, step, createdAt, startedAt, finishedAt, duration, hstep, hduration, rfl⟩ :=
    toRow_eq_ok h
  -- the identity fields were required to be strings
  have hidentity : ∀ field ∈ ["uid", "name", "namespace"],
      IsText ((orEmptyDict (wf.get "metadata")).getD field (.str "")) := by
    intro field hf
    have hnb := hvalid.metadata.2.1 field hf
    rw [orEmptyDict_getD, getD_of_isNonBlank _ hnb]
    exact hnb.isText
  have hstatus : ∀ field ∈ statusFields, IsText ((orEmptyDict (wf.get "status")).get field) := by
    intro field hf
    rw [orEmptyDict_get]
    exact isText_status hvalid hf
  rw [fits_snapshot_iff]
  constructor
  · rintro ⟨htyped, _⟩
    refine ⟨?_, ?_, ?_⟩
    · have := htyped.resourcesDurationCpu
      simpa only [assembleRow, orEmptyDict_get] using this
    · have := htyped.resourcesDurationMemory
      simpa only [assembleRow, orEmptyDict_get] using this
    · exact (isText_failedStep_iff hvalid hstep).mp ⟨htyped.failedStep, htyped.failedStepMessage⟩
  · intro hcond
    obtain ⟨hname, hmessage⟩ := (isText_failedStep_iff hvalid hstep).mpr hcond.step
    refine ⟨?_, isText_str _⟩
    exact {
      uid := hidentity _ (by decide)
      cluster := isText_str _
      «namespace» := hidentity _ (by decide)
      name := hidentity _ (by decide)
      template := (isText_templateOf hvalid).1
      templateScope := (isText_templateOf hvalid).2
      triggerKind := isText_ofStr? _
      triggerName := isText_ofStr? _
      phase := isText_or (hstatus _ (by decide)) (isText_str _)
      message := hstatus _ (by decide)
      progress := hstatus _ (by decide)
      createdAt := isText_ofStr? _
      startedAt := isText_ofStr? _
      finishedAt := isText_ofStr? _
      durationSeconds := durationSeconds_holds hduration
      resourcesDurationCpu := by
        have := hcond.cpu
        simpa only [assembleRow, orEmptyDict_get] using this
      resourcesDurationMemory := by
        have := hcond.memory
        simpa only [assembleRow, orEmptyDict_get] using this
      failedStep := hname
      failedStepMessage := hmessage
      failureFingerprint := (isText_failureColumns _ _).1
      failureClass := (isText_failureColumns _ _).2 }

theorem fits_rows_iff {observedAt : String} {items : List (Json × String)}
    {rows : List SnapshotRow}
    (h : List.Forall₂ (fun item row => toRow py item.1 item.2 observedAt = .ok row) items rows) :
    (∀ r ∈ rows.map SnapshotRow.toRecord, Record.Fits workflowsSchema r) ↔
      ∀ item ∈ items, FitsColumns py item.1 := by
  rw [List.forall_mem_map]
  induction h with
  | nil => simp
  | cons hrow _ ih => rw [List.forall_mem_cons, List.forall_mem_cons, fits_toRow_iff hrow, ih]

/-- Rows fit their schema, and a snapshot encodes, exactly when every Workflow object they come
    from meets `FitsColumns`. -/
theorem snapshot_fits_iff (hpq : ParquetFaithful py) (observedAt generationId : String) :
    (∀ wf clusterName row, toRow py wf clusterName observedAt = .ok row →
      (Record.Fits workflowsSchema row.toRecord ↔ FitsColumns py wf)) ∧
    ∀ (items : List (Json × String)) (rows : List SnapshotRow),
      List.Forall₂ (fun item row => toRow py item.1 item.2 observedAt = .ok row) items rows →
      ((∃ data, tableToParquetBytes py (rows.map SnapshotRow.toRecord) workflowsSchema
          (some generationId) = .ok data) ↔ ∀ item ∈ items, FitsColumns py item.1) := by
  refine ⟨fun wf clusterName row h => fits_toRow_iff h, fun items rows h => ?_⟩
  rw [encode_ok_iff hpq (Or.inl rfl), fits_rows_iff h]

/-- A finished run with this accumulated cpu counter. -/
def counting (cpu : Int) : Json :=
  Reference.workflow "u-1" (.obj [("phase", .str "Succeeded"),
    ("resourcesDuration", .obj [("cpu", .int cpu)])])

theorem fitsColumns_largest : FitsColumns Reference.platform (counting (2 ^ 63 - 1)) where
  cpu := by decide
  memory := by decide
  step := by
    intro _ nodes hnodes e he
    -- there are no compressed nodes, and no failure among none
    have hempty : decodeCompressedNodes Reference.platform .null = .ok [] := rfl
    obtain rfl := Except.ok.inj (hempty.symm.trans hnodes)
    obtain ⟨before, after, hsplit, _⟩ := he
    exact absurd hsplit (by simp [failures])

/-- The largest counter of 64 bits fits, and the snapshot of its run encodes. -/
theorem snapshot_fits_iff_largest :
    ∃ row, toRow Reference.platform (counting (2 ^ 63 - 1)) "alpha" "2026-01-01T00:00:00Z" =
        .ok row ∧
      Record.Fits workflowsSchema row.toRecord ∧
      ∃ data, tableToParquetBytes Reference.platform [row.toRecord] workflowsSchema (some "g") =
        .ok data := by
  obtain ⟨row, hrow⟩ : ∃ row, toRow Reference.platform (counting (2 ^ 63 - 1)) "alpha"
      "2026-01-01T00:00:00Z" = .ok row := ⟨_, rfl⟩
  obtain ⟨hfits, hencodes⟩ :=
    snapshot_fits_iff Reference.parquetFaithful "2026-01-01T00:00:00Z" "g"
  refine ⟨row, hrow, (hfits _ _ row hrow).mpr fitsColumns_largest, ?_⟩
  refine (hencodes [(counting (2 ^ 63 - 1), "alpha")] [row] (.cons hrow .nil)).mpr ?_
  rintro item hitem
  rw [List.mem_singleton.mp hitem]
  exact fitsColumns_largest

/-- A finished run whose accumulated cpu counter does not fit 64 bits. -/
def hugeCounter : Json := counting (2 ^ 63)

/-- A node map whose failing pod has a number for a message. -/
def numericMessage : Json :=
  .obj [("n-1", .obj [("type", .str "Pod"), ("phase", .str "Failed"), ("name", .str "build"),
    ("message", .int 137)])]

def compressedFailure : Json :=
  Reference.workflow "u-2" (.obj [("phase", .str "Failed"), ("compressedNodes", .str "H4sI")])

/-- Neither the size of a counter nor the fields of a compressed node are checked: both objects
    become rows, and the first one makes the encoding of the whole snapshot fail. -/
theorem toRow_may_not_fit :
    (¬ ∀ wf clusterName observedAt row,
      toRow Reference.platform wf clusterName observedAt = .ok row →
        Record.Fits workflowsSchema row.toRecord) ∧
    (¬ ∀ wf clusterName observedAt row,
      toRow (Reference.inflating numericMessage) wf clusterName observedAt = .ok row →
        Record.Fits workflowsSchema row.toRecord) ∧
    ∃ row e, toRow Reference.platform hugeCounter "alpha" "2026-01-01T00:00:00Z" = .ok row ∧
      tableToParquetBytes Reference.platform [row.toRecord] workflowsSchema (some "g") =
        .error e := by
  refine ⟨fun h => ?_, fun h => ?_, ?_⟩
  · exact absurd (h hugeCounter "alpha" "2026-01-01T00:00:00Z" _ rfl) (by decide)
  · exact absurd (h compressedFailure "alpha" "2026-01-01T00:00:00Z" _ rfl) (by decide)
  · exact ⟨_, _, rfl, rfl⟩

end ArgoExporter.Workflows
