/-
  ArgoExporter.Main.Dashboards

  The measures a consumer gets from the ledger of a run of the exporter.  They
  never fail, every run that is retained is counted once in them, and what is
  counted as unknown has a definite meaning: no evidence among the fingerprints,
  no evidence or no matching rule among the classes.
-/

import ArgoExporter.Consumer.Metrics
import ArgoExporter.Main.StoredRows

namespace ArgoExporter.Main

open ArgoExporter.Consumer
open ArgoExporter.FailureTaxonomy
open ArgoExporter.Py
open ArgoExporter.ParquetIo
open ArgoExporter.S3io
open ArgoExporter.Workflows

variable {Bytes : Type} {py : Platform Bytes} {cfg : Config}

/-! ## Specification -/

/-- A SHA-256 digest has 64 hex digits. -/
def DigestLength (py : Platform Bytes) : Prop := ∀ text, (py.sha256hex text).length = 64

/-- The class a failed run is counted under: the one of its evidence, if there is any. -/
def countedClass (py : Platform Bytes) (row : SharedColumns) : String :=
  match evidence row with
  | some text => (failureClass py (.str text)).getD failureClassUnknown
  | none => failureClassUnknown

/-- What the names of the failure counts say about the failed runs. -/
structure NamesFailures (py : Platform Bytes) (rows : List LedgerRow) (metrics : Metrics) :
    Prop where
  classes : ∀ name n, (name, n) ∈ metrics.failureCounts ↔
    0 < n ∧ n = rows.countP fun row => hasFailed row && decide (countedClass py row.shared = name)
  declared : ∀ item ∈ metrics.failureCounts, item.1 ∈ classNames
  unexplained : ∀ n, ("unknown", n) ∈ metrics.failureFingerprintCounts ↔
    0 < n ∧ n = rows.countP fun row => hasFailed row && (evidence row.shared).isNone
  digests : ∀ item ∈ metrics.failureFingerprintCounts, item.1 = "unknown" ∨ item.1.length = 12

/-! ## Names of the counts -/

theorem classNames_ne_empty : ∀ name ∈ classNames, name ≠ "" := by decide

theorem failureGroup_class {row : LedgerRow} (h : Coherent py row.shared) :
    failureGroup "failure_class" row = countedClass py row.shared := by
  show (row.shared.failureClass.or (.str "unknown")).orEmpty = _
  unfold countedClass
  cases hevidence : evidence row.shared with
  | none =>
      rw [(h.taxonomy.of_none hevidence).2]
      rfl
  | some text =>
      obtain ⟨_, name, hname, hclass, hcell⟩ := h.taxonomy.of_some hevidence
      have hne := classNames_ne_empty name hname
      dsimp only
      rw [hcell, hclass, Option.getD_some]
      simp [Json.or, Json.truthy, hne]

theorem countedClass_mem (row : SharedColumns) : countedClass py row ∈ classNames := by
  unfold countedClass
  split
  · cases hclass : failureClass py (.str _) with
    | none => exact List.mem_append_right _ (List.mem_singleton_self _)
    | some name => exact failureClass_mem hclass
  · exact List.mem_append_right _ (List.mem_singleton_self _)

/-- A fingerprint has twelve characters, and so is not taken for a missing one. -/
theorem failureGroup_fingerprint (hsha : DigestLength py) {row : LedgerRow}
    (h : Coherent py row.shared) :
    evidence row.shared = none ∧ failureGroup "failure_fingerprint" row = "unknown" ∨
      evidence row.shared ≠ none ∧ (failureGroup "failure_fingerprint" row).length = 12 := by
  show _ ∧ (row.shared.failureFingerprint.or (.str "unknown")).orEmpty = _ ∨
    _ ∧ (row.shared.failureFingerprint.or (.str "unknown")).orEmpty.length = 12
  cases hevidence : evidence row.shared with
  | none =>
      rw [(h.taxonomy.of_none hevidence).1]
      exact Or.inl ⟨rfl, rfl⟩
  | some text =>
      obtain ⟨⟨normalized, hcell⟩, _⟩ := h.taxonomy.of_some hevidence
      have hlength : (String.ofList ((py.sha256hex normalized).toList.take 12)).length = 12 := by
        rw [String.length_ofList, List.length_take, String.length_toList, hsha]
        rfl
      have hne : String.ofList ((py.sha256hex normalized).toList.take 12) ≠ "" := by
        intro hempty
        rw [hempty] at hlength
        exact absurd hlength (by decide)
      refine Or.inr ⟨by simp, ?_⟩
      rw [hcell]
      simpa [Json.or, Json.truthy, hne] using hlength

theorem namesFailures_of_coherent (hsha : DigestLength py) {rows : List LedgerRow}
    {metrics : Metrics} (h : MeasuresRuns rows metrics)
    (hrows : ∀ row ∈ rows, Coherent py row.shared) : NamesFailures py rows metrics where
  classes := by
    intro name n
    rw [h.classes.counts]
    refine and_congr_right fun _ => ?_
    rw [List.countP_congr fun row hrow => by rw [failureGroup_class (hrows row hrow)]]
  declared := by
    rintro ⟨name, n⟩ hitem
    obtain ⟨hpos, hcount⟩ := (h.classes.counts name n).mp hitem
    rw [hcount, List.countP_pos_iff] at hpos
    obtain ⟨row, hrow, hname⟩ := hpos
    rw [Bool.and_eq_true, decide_eq_true_eq, failureGroup_class (hrows row hrow)] at hname
    rw [← hname.2]
    exact countedClass_mem row.shared
  unexplained := by
    intro n
    rw [h.fingerprints.counts]
    refine and_congr_right fun _ => ?_
    rw [List.countP_congr fun row hrow => ?_]
    rw [Bool.and_eq_true, Bool.and_eq_true, decide_eq_true_eq, Option.isNone_iff_eq_none]
    refine and_congr_right fun _ => ?_
    rcases failureGroup_fingerprint hsha (hrows row hrow) with ⟨hnone, hgroup⟩ | ⟨hsome, hlength⟩
    · exact ⟨fun _ => hnone, fun _ => hgroup⟩
    · refine ⟨fun hgroup => ?_, fun hnone => absurd hnone hsome⟩
      rw [hgroup] at hlength
      exact absurd hlength (by decide)
  digests := by
    rintro ⟨name, n⟩ hitem
    obtain ⟨hpos, hcount⟩ := (h.fingerprints.counts name n).mp hitem
    rw [hcount, List.countP_pos_iff] at hpos
    obtain ⟨row, hrow, hname⟩ := hpos
    rw [Bool.and_eq_true, decide_eq_true_eq] at hname
    rw [← hname.2]
    exact (failureGroup_fingerprint hsha (hrows row hrow)).imp And.right And.right

/-! ## Times -/

theorem emitted_of_isUtcText {cell : Json} (h : IsUtcText cell) : Emitted cell := by
  rcases h with hnull | ⟨text, hcell, hemits⟩
  · exact Or.inl hnull
  · exact Or.inr ⟨cell, text, by rw [hcell]; exact hemits.stable, hcell⟩

theorem emittedTimes_of_coherent {row : LedgerRow} (h : Coherent py row.shared) :
    EmittedTimes row :=
  ⟨emitted_of_isUtcText h.startedAt, emitted_of_isUtcText h.finishedAt⟩

/-! ## Whole runs -/

/-- The measures of a run's ledger: they are there, they count one row for every retained run, and
    their order and names mean what the rows of one extraction mean. -/
theorem dashboards_of_run (hpq : ParquetFaithful py) (hjson : JsonFaithful py)
    (hsha : DigestLength py) {store : ObjectStore Bytes}
    (hempty : store (objectKey cfg.destPrefix "runs.parquet") = none)
    (cycles : List (CycleInputs cfg)) (publication : Publication Bytes)
    (hruns : publication.runs =
      (exporterRun py store cycles).store (objectKey cfg.destPrefix "runs.parquet")) :
    ∃ rows metrics, historicalMetrics py publication = .ok metrics ∧
      StoresSeenRows py (cycles.map CycleInputs.listing) rows ∧ MeasuresRuns rows metrics ∧
      NamesFailures py rows metrics ∧
      metrics.phaseCounts.values.sum = metrics.rates.total ∧
      (Chronological rows metrics.durationHistory ↔ ¬ SplitSecond rows) := by
  obtain ⟨table, hdecode, hstored⟩ := storesSeenRows_exporterRun hpq hjson hempty cycles
  have hcoherent : ∀ row ∈ ledgerRows table, Coherent py row.shared := fun row hrow =>
    (hstored.seen row hrow).coherent
  have hordered := ordered_history_iff fun row hrow => emittedTimes_of_coherent (hcoherent row hrow)
  have hrows : historicalRuns py publication = .ok (ledgerRows table) := by
    rw [historicalRuns, historicalRunRows, hruns, hdecode]
    rfl
  obtain ⟨metrics, hmetrics, hmeasures⟩ := measures_of_runs hrows (phase_typed_of_decode hpq hrows)
  refine ⟨ledgerRows table, metrics, hmetrics, hstored, hmeasures,
    namesFailures_of_coherent hsha hmeasures hcoherent, ?_, ?_⟩
  -- no row is without a phase
  · have hnone : (ledgerRows table).countP (fun row => row.shared.phase.isNull) = 0 := by
      rw [List.countP_eq_zero]
      intro row hrow
      obtain ⟨phase, _, hphase⟩ := (hcoherent row hrow).phase
      rw [hphase]
      exact Bool.false_ne_true
    rw [← hmeasures.phaseSum, hnone, Nat.add_zero]
  · rw [hmeasures.history, ← hordered]
    exact ⟨fun hchronological => hchronological.ordered, fun h => ⟨perm_history _, h⟩⟩

theorem digestLength_reference : DigestLength Reference.platform := by
  intro text
  show (Reference.digestOf text).length = 64
  rw [Reference.digestOf, String.length_ofList, List.length_map, List.length_range]

/-- A published cycle, then one that stops before its sidecar. -/
theorem dashboards_of_run_torn :
    let cycles := [Reference.cycle 0 'a' .served,
      Reference.cycle 61 'b' (.failed ⟨.clientError "InternalError", "put"⟩ false)]
    let store := (exporterRun Reference.platform Reference.emptyStore cycles).store
    ∃ rows metrics, historicalMetrics Reference.platform
        ⟨.null, none, store (objectKey Reference.config.destPrefix "runs.parquet")⟩ = .ok metrics ∧
      StoresSeenRows Reference.platform (cycles.map CycleInputs.listing) rows ∧
      MeasuresRuns rows metrics ∧ NamesFailures Reference.platform rows metrics ∧
      metrics.phaseCounts.values.sum = metrics.rates.total ∧
      (Chronological rows metrics.durationHistory ↔ ¬ SplitSecond rows) :=
  dashboards_of_run Reference.parquetFaithful Reference.jsonFaithful digestLength_reference rfl _ _
    rfl

end ArgoExporter.Main
