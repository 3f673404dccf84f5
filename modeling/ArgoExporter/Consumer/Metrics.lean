/-
  ArgoExporter.Consumer.Metrics

  All measures of one decode of the run ledger.  They count the same rows, so
  they agree: the phases add up to the rows that have one, and the failure
  classes and the failure fingerprints both add up to the failed runs.
-/

import ArgoExporter.Consumer
import ArgoExporter.Consumer.DurationHistory
import ArgoExporter.Consumer.Reconciliation
import ArgoExporter.Lib.Counter

namespace ArgoExporter.Consumer

open ArgoExporter.Lib
open ArgoExporter.Py
open ArgoExporter.ParquetIo

/-! ## Failure counts -/

def failurePhases : List String := ["Failed", "Error"]

/-- `row.get("phase") in _FAILURE_PHASES`. -/
def hasFailed (row : LedgerRow) : Bool := failurePhases.any fun phase => hasPhase phase row

/-- `row.get(field) or "unknown"`, of a cell that is a string or null. -/
def failureGroup (field : String) (row : LedgerRow) : String :=
  ((Record.get row.toRecord field).or (.str "unknown")).orEmpty

/-- One row of the loop of `_failure_counts`. -/
def countFailure (field : String) (counts : OrderedDict String Nat) (row : LedgerRow) :
    OrderedDict String Nat :=
  if hasFailed row then Counter.add counts (failureGroup field row) else counts

def failureCounts (rows : List LedgerRow) (field : String) : List (String × Nat) :=
  Counter.sortedItems (rows.foldl (countFailure field) OrderedDict.empty)

def failureFields : List String := ["failure_class", "failure_fingerprint"]

/-! ## Measures of a publication -/

variable {Bytes : Type} (py : Platform Bytes)

/-- The decoded ledger, row by row. -/
def historicalRuns (publication : Publication Bytes) : Except Exc (List LedgerRow) := do
  let rows ← historicalRunRows py publication
  return rows.map LedgerRow.ofRecord

/-- `historical_rates(publication)`. -/
def historicalRatesOf (publication : Publication Bytes) : Except Exc Rates := do
  return historicalRates (← historicalRuns py publication)

def historicalPhaseCounts (publication : Publication Bytes) :
    Except Exc (OrderedDict String Nat) := do
  return phaseCounts (← historicalRuns py publication)

/-- `historical_trends(publication, bucket)`. -/
def historicalTrendsOf (publication : Publication Bytes) (bucket : String) :
    Except Exc (List Trend) := do
  historicalTrends (← historicalRuns py publication) bucket

/-- `historical_duration_history(publication)`. -/
def historicalDurationHistoryOf (publication : Publication Bytes) :
    Except Exc (List DurationEntry) := do
  return historicalDurationHistory (← historicalRuns py publication)

/-- The failed runs by class or by fingerprint; the field is checked before anything is read. -/
def historicalFailureCounts (publication : Publication Bytes) (field : String) :
    Except Exc (List (String × Nat)) :=
  if field ∉ failureFields then
    raise .valueError "field must be failure_class or failure_fingerprint"
  else do return failureCounts (← historicalRuns py publication) field

/-- The dict `historical_metrics` returns. -/
structure Metrics where
  rates : Rates
  phaseCounts : OrderedDict String Nat
  trends : List Trend
  durationHistory : List DurationEntry
  failureCounts : List (String × Nat)
  failureFingerprintCounts : List (String × Nat)

def historicalMetrics (publication : Publication Bytes) : Except Exc Metrics := do
  let rows ← historicalRuns py publication
  let trends ← historicalTrends rows "day"
  return { rates := historicalRates rows
           phaseCounts := phaseCounts rows
           trends := trends
           durationHistory := historicalDurationHistory rows
           failureCounts := failureCounts rows "failure_class"
           failureFingerprintCounts := failureCounts rows "failure_fingerprint" }

/-! ## Specification -/

/-- Items in the order of their names, one for every group of the failed runs. -/
structure CountsFailures (rows : List LedgerRow) (field : String) (items : List (String × Nat)) :
    Prop where
  increasing : (items.map Prod.fst).Pairwise (· < ·)
  counts : ∀ name n, (name, n) ∈ items ↔
    0 < n ∧ n = rows.countP fun row => hasFailed row && decide (failureGroup field row = name)
  sum : (items.map Prod.snd).sum = (historicalRates rows).failed

/-- The measures account for the runs of one ledger. -/
structure MeasuresRuns (rows : List LedgerRow) (metrics : Metrics) : Prop where
  rates : metrics.rates = historicalRates rows
  phases : ∀ phase n, (phase, n) ∈ metrics.phaseCounts.entries ↔
    0 < n ∧ n = rows.countP (hasPhase phase)
  phaseSum : metrics.phaseCounts.values.sum + rows.countP (fun row => row.shared.phase.isNull) =
    metrics.rates.total
  trends : AccountsFor rows metrics.trends
  history : metrics.durationHistory = historicalDurationHistory rows
  durations : metrics.durationHistory.Perm ((rows.filter hasDuration).map durationEntry)
  classes : CountsFailures rows "failure_class" metrics.failureCounts
  fingerprints : CountsFailures rows "failure_fingerprint" metrics.failureFingerprintCounts

/-- Each measure on its own is the one among all measures of the publication. -/
structure MeasuresAlone (py : Platform Bytes) (publication : Publication Bytes) : Prop where
  rates : historicalRatesOf py publication = (historicalMetrics py publication).map Metrics.rates
  phases : historicalPhaseCounts py publication =
    (historicalMetrics py publication).map Metrics.phaseCounts
  trends : historicalTrendsOf py publication "day" =
    (historicalMetrics py publication).map Metrics.trends
  history : historicalDurationHistoryOf py publication =
    (historicalMetrics py publication).map Metrics.durationHistory
  classes : historicalFailureCounts py publication "failure_class" =
    (historicalMetrics py publication).map Metrics.failureCounts
  fingerprints : historicalFailureCounts py publication "failure_fingerprint" =
    (historicalMetrics py publication).map Metrics.failureFingerprintCounts

/-! ## Phases -/

/-- The phase of a run, if its cell is a string. -/
def phaseKey (row : LedgerRow) : Option String :=
  match row.shared.phase with
  | .str phase => some phase
  | _ => none

theorem phaseKey_eq_some_iff {row : LedgerRow} {phase : String} :
    phaseKey row = some phase ↔ hasPhase phase row = true := by
  rw [hasPhase_iff, phaseKey]
  split
  · rename_i phase' hphase
    rw [hphase, Option.some.injEq, Json.str.injEq]
  · rename_i hother
    exact ⟨fun h => absurd h (by simp), fun h => absurd h (hother phase)⟩

theorem phaseCounts_eq_tally (rows : List LedgerRow) :
    phaseCounts rows = Counter.tally (rows.filterMap phaseKey) := by
  rw [phaseCounts, Counter.tally, List.foldl_filterMap]
  congr 1
  funext counts row
  rw [countPhase, phaseKey]
  cases row.shared.phase <;> rfl

theorem count_filterMap_phaseKey (rows : List LedgerRow) (phase : String) :
    (rows.filterMap phaseKey).count phase = rows.countP (hasPhase phase) := by
  rw [List.count, List.countP_filterMap]
  apply List.countP_congr
  intro row _
  rw [← phaseKey_eq_some_iff]
  cases phaseKey row with
  | none => simp
  | some phase' => simp

/-- The rows without a phase are the ones left out of the counts. -/
theorem sum_phaseCounts {rows : List LedgerRow}
    (htyped : ∀ row ∈ rows, row.shared.phase = .null ∨ ∃ phase, row.shared.phase = .str phase) :
    (phaseCounts rows).values.sum + rows.countP (fun row => row.shared.phase.isNull) =
      rows.length := by
  rw [phaseCounts_eq_tally, Counter.sum_tally]
  induction rows with
  | nil => rfl
  | cons row rows ih =>
      obtain ⟨hrow, hrows⟩ := List.forall_mem_cons.mp htyped
      have hrest := ih hrows
      rw [List.countP_cons, List.length_cons]
      rcases hrow with hnull | ⟨phase, hphase⟩
      · have hkey : phaseKey row = none := by rw [phaseKey, hnull]
        have hisNull : row.shared.phase.isNull = true := by rw [hnull]; rfl
        rw [List.filterMap_cons_none hkey, if_pos hisNull]
        omega
      · have hkey : phaseKey row = some phase := by rw [phaseKey, hphase]
        have hisNull : ¬ row.shared.phase.isNull = true := by rw [hphase]; exact Bool.false_ne_true
        rw [List.filterMap_cons_some hkey, List.length_cons, if_neg hisNull]
        omega

/-! ## Failures -/

theorem hasFailed_eq (row : LedgerRow) :
    hasFailed row = (hasPhase "Failed" row || hasPhase "Error" row) := by
  simp [hasFailed, failurePhases]

/-- Failed runs and runs in error are what the rates call failed. -/
theorem failed_rates (rows : List LedgerRow) :
    (historicalRates rows).failed = rows.countP hasFailed := by
  have hrow (row : LedgerRow) : (if hasFailed row then 1 else 0) =
      (if hasPhase "Failed" row then 1 else 0) + if hasPhase "Error" row then 1 else 0 := by
    rw [hasFailed_eq]
    rcases phase_cases row with ⟨_, hf, he⟩ | ⟨_, hf, he⟩ | ⟨_, hf⟩
    · simp [hf, he]
    · simp [hf, he]
    · simp [hf]
  show countOf (phaseCounts rows) "Failed" + countOf (phaseCounts rows) "Error" = _
  rw [countOf_phaseCounts, countOf_phaseCounts]
  induction rows with
  | nil => rfl
  | cons row rows ih =>
      rw [List.countP_cons, List.countP_cons, List.countP_cons, ← ih, hrow]
      omega

/-- The loop over all rows counts the groups of the failed ones. -/
theorem foldl_countFailure (rows : List LedgerRow) (field : String) :
    rows.foldl (countFailure field) OrderedDict.empty =
      Counter.tally ((rows.filter hasFailed).map (failureGroup field)) := by
  rw [Counter.tally, List.foldl_map, List.foldl_filter]
  rfl

theorem failureCounts_spec (rows : List LedgerRow) (field : String) :
    CountsFailures rows field (failureCounts rows field) := by
  rw [failureCounts, foldl_countFailure]
  refine ⟨Counter.pairwise_sortedItems _, fun name n => ?_, ?_⟩
  · rw [(Counter.sortedItems_perm _).mem_iff, Counter.mem_tally_iff, List.count, List.countP_map,
      List.countP_filter]
    have hgroup : (fun row => ((· == name) ∘ failureGroup field) row && hasFailed row) =
        fun row => hasFailed row && decide (failureGroup field row = name) := by
      funext row
      rw [Bool.and_comm, Function.comp_apply, beq_eq_decide]
    rw [hgroup]
  · rw [Counter.sum_sortedItems, Counter.sum_tally, List.length_map, ← List.countP_eq_length_filter,
      failed_rates]

/-! ## Measures -/

variable {py}

/-- The phase cells of a decoded ledger are strings or null. -/
theorem phase_typed_of_decode (hpq : ParquetFaithful py) {publication : Publication Bytes}
    {rows : List LedgerRow} (h : historicalRuns py publication = .ok rows) :
    ∀ row ∈ rows, row.shared.phase = .null ∨ ∃ phase, row.shared.phase = .str phase := by
  obtain ⟨records, hrecords, hrows⟩ := bind_eq_ok.mp h
  obtain ⟨table, htable, hlist⟩ := bind_eq_ok.mp hrecords
  rw [← Except.ok.inj hrows, ← Except.ok.inj hlist]
  intro row hrow
  obtain ⟨record, hrecord, rfl⟩ := List.mem_map.mp hrow
  exact fits_of_decode hpq (Or.inr rfl) htable record hrecord ("phase", .string) (by decide)

/-- The measures of a decoded ledger; once it is decoded nothing else can fail. -/
theorem historicalMetrics_eq {publication : Publication Bytes} {rows : List LedgerRow}
    (h : historicalRuns py publication = .ok rows) :
    ∃ trends, historicalTrends rows "day" = .ok trends ∧ AccountsFor rows trends ∧
      historicalMetrics py publication = .ok ⟨historicalRates rows, phaseCounts rows, trends,
        historicalDurationHistory rows, failureCounts rows "failure_class",
        failureCounts rows "failure_fingerprint"⟩ := by
  obtain ⟨periods, hperiods, htrends⟩ :=
    historicalTrends_spec rows (show "day" ∈ trendBuckets by decide)
  refine ⟨_, htrends, accountsFor_trendsOf hperiods, ?_⟩
  rw [historicalMetrics, h, ok_bind, htrends]
  rfl

theorem historicalMetrics_error {publication : Publication Bytes} {e : Exc}
    (h : historicalRuns py publication = .error e) : historicalMetrics py publication = .error e := by
  rw [historicalMetrics, h]
  rfl

/-- The measures account for the decoded runs. -/
theorem measures_of_runs {publication : Publication Bytes} {rows : List LedgerRow}
    (h : historicalRuns py publication = .ok rows)
    (htyped : ∀ row ∈ rows, row.shared.phase = .null ∨ ∃ phase, row.shared.phase = .str phase) :
    ∃ metrics, historicalMetrics py publication = .ok metrics ∧ MeasuresRuns rows metrics := by
  obtain ⟨trends, _, haccounts, hmetrics⟩ := historicalMetrics_eq h
  exact ⟨_, hmetrics, {
    rates := rfl
    phases := fun phase n => by
      show (phase, n) ∈ (phaseCounts rows).entries ↔ _
      rw [phaseCounts_eq_tally, Counter.mem_tally_iff, count_filterMap_phaseKey]
    phaseSum := sum_phaseCounts htyped
    trends := haccounts
    history := rfl
    durations := perm_history rows
    classes := failureCounts_spec rows "failure_class"
    fingerprints := failureCounts_spec rows "failure_fingerprint" }⟩

/-- A failure field that is known is counted over the decoded runs. -/
theorem historicalFailureCounts_eq (py : Platform Bytes) (publication : Publication Bytes)
    {field : String} (hfield : field ∈ failureFields) :
    historicalFailureCounts py publication field =
      historicalRuns py publication >>= fun rows => .ok (failureCounts rows field) := by
  rw [historicalFailureCounts, if_neg (not_not.mpr hfield)]
  rfl

theorem measuresAlone (publication : Publication Bytes) : MeasuresAlone py publication := by
  have hclass := historicalFailureCounts_eq py publication
    (show "failure_class" ∈ failureFields by decide)
  have hfingerprint := historicalFailureCounts_eq py publication
    (show "failure_fingerprint" ∈ failureFields by decide)
  cases h : historicalRuns py publication with
  | error e =>
      rw [h] at hclass hfingerprint
      have herror := historicalMetrics_error h
      refine ⟨?_, ?_, ?_, ?_, by rw [hclass, herror]; rfl, by rw [hfingerprint, herror]; rfl⟩
      · rw [historicalRatesOf, h, herror]; rfl
      · rw [historicalPhaseCounts, h, herror]; rfl
      · rw [historicalTrendsOf, h, herror]; rfl
      · rw [historicalDurationHistoryOf, h, herror]; rfl
  | ok rows =>
      rw [h] at hclass hfingerprint
      obtain ⟨trends, htrends, _, hmetrics⟩ := historicalMetrics_eq h
      refine ⟨?_, ?_, ?_, ?_, by rw [hclass, hmetrics]; rfl, by rw [hfingerprint, hmetrics]; rfl⟩
      · rw [historicalRatesOf, h, hmetrics]; rfl
      · rw [historicalPhaseCounts, h, hmetrics]; rfl
      · rw [historicalTrendsOf, h, ok_bind, htrends, hmetrics]; rfl
      · rw [historicalDurationHistoryOf, h, hmetrics]; rfl

/-- The measures of a publication fail only where the decode of its ledger does, otherwise all of
    them account for its rows, and each of them on its own is the same. -/
theorem historicalMetrics_account (hpq : ParquetFaithful py) (publication : Publication Bytes) :
    (∀ e, historicalMetrics py publication = .error e ↔ historicalRuns py publication = .error e) ∧
      (∀ metrics, historicalMetrics py publication = .ok metrics →
        ∃ rows, historicalRuns py publication = .ok rows ∧ MeasuresRuns rows metrics) ∧
      MeasuresAlone py publication := by
  refine ⟨?_, ?_, measuresAlone publication⟩
  · intro e
    cases h : historicalRuns py publication with
    | error e' => rw [historicalMetrics_error h, Except.error.injEq, Except.error.injEq]
    | ok rows =>
        obtain ⟨_, _, _, hmetrics⟩ := historicalMetrics_eq h
        rw [hmetrics]
        simp
  · intro metrics hok
    cases h : historicalRuns py publication with
    | error e => exact absurd hok (by rw [historicalMetrics_error h]; simp)
    | ok rows =>
        obtain ⟨metrics', hmetrics, hmeasures⟩ := measures_of_runs h (phase_typed_of_decode hpq h)
        rw [hmetrics, Except.ok.injEq] at hok
        exact ⟨rows, rfl, hok ▸ hmeasures⟩

/-! ## A ledger of three runs -/

/-- A retained run with this phase and failure class. -/
def retainedRun (uid : String) (phase failureClass : Json) : LedgerRow :=
  ⟨{ (Reference.row "").shared with uid := .str uid, phase := phase, failureClass := failureClass },
    .str "2026-01-01T00:00:00Z", .str "2026-01-01T00:00:00Z"⟩

/-- A run that failed, one that succeeded, and one without a phase. -/
def threeRuns : List LedgerRow :=
  [retainedRun "u-1" (.str "Failed") (.str "timeout"), retainedRun "u-2" (.str "Succeeded") .null,
    retainedRun "u-3" .null .null]

/-- The measures of a stored ledger with these runs. -/
theorem historicalMetrics_account_threeRuns :
    ∃ data metrics,
      tableToParquetBytes Reference.platform (threeRuns.map LedgerRow.toRecord) runsSchema
        (some "2026-01-01T00:00:00Z-0123456789ab") = .ok data ∧
      historicalMetrics Reference.platform ⟨.null, none, some data⟩ = .ok metrics ∧
      MeasuresRuns threeRuns metrics ∧ metrics.rates.total = 3 ∧ metrics.rates.failed = 1 ∧
      metrics.phaseCounts.values.sum = 2 ∧ ("timeout", 1) ∈ metrics.failureCounts ∧
      historicalFailureCounts Reference.platform ⟨.null, none, some data⟩ "failure_class" =
        .ok metrics.failureCounts := by
  have hfits : ∀ record ∈ threeRuns.map LedgerRow.toRecord, Record.Fits runsSchema record := by
    decide
  obtain ⟨data, hdata⟩ := (encode_ok_iff Reference.parquetFaithful (Or.inr rfl)
    "2026-01-01T00:00:00Z-0123456789ab").mpr hfits
  have hdecode := decode_encode Reference.parquetFaithful (Or.inr rfl) hdata
  have hruns : historicalRuns Reference.platform ⟨.null, none, some data⟩ = .ok threeRuns := by
    rw [historicalRuns, historicalRunRows, hdecode]
    exact congrArg Except.ok (ledgerRows_tableOf threeRuns)
  obtain ⟨_, haccount, halone⟩ :=
    historicalMetrics_account Reference.parquetFaithful ⟨.null, none, some data⟩
  obtain ⟨_, _, _, hmetrics⟩ := historicalMetrics_eq hruns
  obtain ⟨rows, hrows, hmeasures⟩ := haccount _ hmetrics
  rw [hruns, Except.ok.injEq] at hrows
  subst hrows
  refine ⟨data, _, hdata, hmetrics, hmeasures, rfl, rfl, ?_, ?_, ?_⟩
  · have hsum := hmeasures.phaseSum
    have hnull : threeRuns.countP (fun row => row.shared.phase.isNull) = 1 := rfl
    rw [hnull] at hsum
    exact Nat.succ_injective hsum
  · exact (hmeasures.classes.counts "timeout" 1).mpr ⟨Nat.one_pos, rfl⟩
  · rw [halone.classes, hmetrics]
    rfl

end ArgoExporter.Consumer
