/-
  ArgoExporter.Workflows.NotFailed

  Failure columns of runs that did not fail.  `failed_step` looks at the nodes
  and `failure_columns` at the messages, and neither looks at the phase of the
  run: the columns are null when nodes and message are silent, whatever the
  phase says.
-/

import ArgoExporter.Workflows.RowTypes

namespace ArgoExporter.Workflows

open ArgoExporter.Py
open ArgoExporter.ParquetIo
open ArgoExporter.FailureTaxonomy

/-! ## Specification -/

/-- The phases of a run that failed. -/
def isFailedPhase (phase : Json) : Bool :=
  match phase with
  | .str p => ["Failed", "Error"].contains p
  | _ => false

/-- All four failure columns are null. -/
structure NoFailureColumns (row : SnapshotRow) : Prop where
  failedStep : row.shared.failedStep = .null
  failedStepMessage : row.shared.failedStepMessage = .null
  failureFingerprint : row.shared.failureFingerprint = .null
  failureClass : row.shared.failureClass = .null

variable {Bytes : Type} (py : Platform Bytes)

/-- Nothing in the object reads like a failure: the failing pod that would be reported, if there is
    one, has neither name nor message, and the message of the run is null or blank. -/
structure Silent (wf : Json) : Prop where
  step : ∀ nodes e, nodesOf py (wf.get "status") = .ok nodes → EarliestFailure nodes e →
    stepName e.2 = .null ∧ e.2.get "message" = .null
  message : usableMessage ((wf.get "status").get "message") = none

/-! ## The columns -/

variable {py}

/-- The output phase of a run without a source phase is no failed one. -/
theorem isFailedPhase_or (phase : Json) :
    isFailedPhase (phase.or (.str "Pending")) = isFailedPhase phase := by
  by_cases h : phase.truthy = true
  · rw [Json.or, if_pos h]
  · rw [Json.or, if_neg h]
    cases phase with
    | str p =>
        have hp : p = "" := by simpa [Json.truthy] using h
        subst hp
        rfl
    | _ => rfl

theorem usableMessage_eq_some {message : Json} {s : String} (h : usableMessage message = some s) :
    usableMessage (.str s) = some s := by
  cases message with
  | str t =>
      have hblank : strip t ≠ "" := by
        intro hb
        rw [usableMessage, if_pos hb] at h
        exact absurd h (by simp)
      rw [usableMessage, if_neg hblank, Option.some.injEq] at h
      rw [← h, usableMessage, if_neg hblank]
  | _ => exact absurd h (by simp [usableMessage])

/-- The derived columns are null together, when neither message is usable. -/
theorem failureColumns_null_iff (py : Platform Bytes) (stepMessage message : Json) :
    (failureColumns py stepMessage message).failureFingerprint = .null ∧
      (failureColumns py stepMessage message).failureClass = .null ↔
    usableMessage stepMessage = none ∧ usableMessage message = none := by
  rw [← Option.or_eq_none_iff]
  unfold failureColumns
  dsimp only
  cases h : (usableMessage stepMessage).or (usableMessage message) with
  | none =>
      refine ⟨fun _ => rfl, fun _ => ⟨rfl, rfl⟩⟩
  | some s =>
      have husable : usableMessage (.str s) = some s := by
        cases hstep : usableMessage stepMessage with
        | some s' =>
            rw [hstep, Option.some_or] at h
            rw [← Option.some.inj h]
            exact usableMessage_eq_some hstep
        | none =>
            rw [hstep, Option.none_or] at h
            exact usableMessage_eq_some h
      -- a usable message always has a class
      have hcols : Json.ofStr? ((normalizeFailure py (Json.ofStr? (some s))).map Prod.snd) ≠
          .null := by
        rw [normalizeFailure, Json.ofStr?, husable]
        simp [Json.ofStr?]
      constructor
      · intro hnull
        exact absurd hnull.1 hcols
      · intro hnone
        exact absurd hnone (by simp)

/-- The reported step is null when there is no failing pod, or when the one to report has neither
    name nor message. -/
theorem failedStep_null_iff {wf name message : Json}
    (h : failedStep py wf = .ok (name, message)) :
    name = .null ∧ message = .null ↔
      ∀ nodes e, nodesOf py (wf.get "status") = .ok nodes → EarliestFailure nodes e →
        stepName e.2 = .null ∧ e.2.get "message" = .null := by
  obtain ⟨nodes, hnodes, hcases⟩ := failedStep_eq_ok h
  rw [nodesOf_orEmptyDict] at hnodes
  rcases hcases with ⟨hnone, rfl, rfl⟩ | ⟨e, he, rfl, rfl⟩
  · refine ⟨fun _ nodes' e hnodes' he => ?_, fun _ => ⟨rfl, rfl⟩⟩
    -- an earliest failure would be a failing pod of the map, and there is none
    rw [hnodes, Except.ok.injEq] at hnodes'
    subst hnodes'
    obtain ⟨before, after, hsplit, _⟩ := he
    rw [hnone] at hsplit
    exact absurd hsplit (by simp)
  · constructor
    · intro hnull nodes' e' hnodes' he'
      rw [hnodes, Except.ok.injEq] at hnodes'
      subst hnodes'
      rw [he'.unique he]
      exact hnull
    · intro hall
      exact hall nodes e hnodes he

/-- The failure columns of a row are null exactly when the object is silent. -/
theorem noFailureColumns_iff {wf : Json} {clusterName observedAt : String} {row : SnapshotRow}
    (h : toRow py wf clusterName observedAt = .ok row) : NoFailureColumns row ↔ Silent py wf := by
  obtain ⟨_, ⟨name, message⟩, createdAt, startedAt, finishedAt, duration, hstep, _, rfl⟩ :=
    toRow_eq_ok h
  have hquiet := failedStep_null_iff hstep
  have hcolumns := failureColumns_null_iff py message
    ((orEmptyDict (wf.get "status")).get "message")
  constructor
  · rintro ⟨hname, hmessage, hfingerprint, hclass⟩
    have husable := (hcolumns.mp ⟨hfingerprint, hclass⟩).2
    rw [orEmptyDict_get] at husable
    exact ⟨hquiet.mp ⟨hname, hmessage⟩, husable⟩
  · rintro ⟨hstepNull, husable⟩
    obtain ⟨hname, hmessage⟩ := hquiet.mpr hstepNull
    rw [← orEmptyDict_get] at husable
    have hstepBlank : usableMessage message = none := by
      rw [show message = .null from hmessage]
      rfl
    obtain ⟨hfingerprint, hclass⟩ := hcolumns.mpr ⟨hstepBlank, husable⟩
    exact ⟨hname, hmessage, hfingerprint, hclass⟩

theorem phase_toRow {wf : Json} {clusterName observedAt : String} {row : SnapshotRow}
    (h : toRow py wf clusterName observedAt = .ok row) :
    isFailedPhase row.shared.phase = isFailedPhase ((wf.get "status").get "phase") := by
  obtain ⟨_, step, createdAt, startedAt, finishedAt, duration, _, _, rfl⟩ := toRow_eq_ok h
  show isFailedPhase (((orEmptyDict (wf.get "status")).get "phase").or (.str "Pending")) = _
  rw [orEmptyDict_get, isFailedPhase_or]

/-- The failure columns of a run are null unless it failed exactly when the run did fail or the
    object is silent. -/
theorem failure_columns_iff {wf : Json} {clusterName observedAt : String} {row : SnapshotRow}
    (h : toRow py wf clusterName observedAt = .ok row) :
    (isFailedPhase row.shared.phase = false → NoFailureColumns row) ↔
      isFailedPhase ((wf.get "status").get "phase") = true ∨ Silent py wf := by
  rw [noFailureColumns_iff h, phase_toRow h]
  cases isFailedPhase ((wf.get "status").get "phase") with
  | true => simp
  | false => simp

/-- A run that succeeded although a pod was lost on the way: the pod has neither name nor message,
    and the message of the run is blank. -/
def lostPodWorkflow : Json :=
  Reference.workflow "u-1" (.obj [("phase", .str "Succeeded"), ("message", .str "  "),
    ("nodes", .obj [("n-1", .obj [("phase", .str "Failed"), ("type", .str "Pod")])])])

theorem silent_lostPodWorkflow : Silent Reference.platform lostPodWorkflow where
  message := rfl
  step := by
    intro nodes e hnodes he
    have hmap : nodesOf Reference.platform (lostPodWorkflow.get "status") =
        .ok [("n-1", .obj [("phase", .str "Failed"), ("type", .str "Pod")])] := rfl
    rw [hmap, Except.ok.injEq] at hnodes
    subst hnodes
    -- the only failing pod of the map is the one that was lost
    obtain ⟨before, after, hsplit, _⟩ := he
    have hmem : e ∈ [("n-1", Json.obj [("phase", .str "Failed"), ("type", .str "Pod")])] :=
      List.mem_of_mem_filter (hsplit ▸ List.mem_append_cons_self)
    rw [List.mem_singleton] at hmem
    subst hmem
    exact ⟨rfl, rfl⟩

/-- A lost pod without name and message leaves the columns of a run that succeeded null. -/
theorem failure_columns_iff_lostPod : ∃ row,
    toRow Reference.platform lostPodWorkflow "alpha" "" = .ok row ∧
      isFailedPhase row.shared.phase = false ∧ NoFailureColumns row := by
  obtain ⟨row, h⟩ : ∃ row, toRow Reference.platform lostPodWorkflow "alpha" "" = .ok row :=
    ⟨_, rfl⟩
  have hphase : isFailedPhase row.shared.phase = false := by
    rw [phase_toRow h]
    rfl
  exact ⟨row, h, hphase, (failure_columns_iff h).mpr (.inr silent_lostPodWorkflow) hphase⟩

/-- A retried step: the run succeeded, and the pod of the first attempt is still in its node map. -/
def retriedWorkflow : Json :=
  Reference.workflow "u-1" (.obj [("phase", .str "Succeeded"), ("nodes", .obj [("n-1",
    .obj [("phase", .str "Failed"), ("type", .str "Pod"), ("displayName", .str "build"),
      ("message", .str "exit code 137")])])])

/-- A run that succeeded is reported with a failed step. -/
theorem succeeded_run_has_failed_step : ∃ row,
    toRow Reference.platform retriedWorkflow "alpha" "" = .ok row ∧
      row.shared.phase = .str "Succeeded" ∧ row.shared.failedStep = .str "build" ∧
      ¬ (isFailedPhase row.shared.phase = false → NoFailureColumns row) := by
  refine ⟨_, rfl, rfl, rfl, fun h => ?_⟩
  have hnull : Json.str "build" = .null := (h rfl).failedStep
  exact absurd hnull (by simp)

end ArgoExporter.Workflows
