/-
  ArgoExporter.Main.LedgerHistory

  Runs of one exporter.  Whatever ends its cycles, the stored ledger is the
  history of the cycles whose PUT of `runs.parquet` took effect, and of no
  other cycle.
-/

import ArgoExporter.Ledger.History
import ArgoExporter.Main.Acceptance

namespace ArgoExporter.Main

open ArgoExporter.Py
open ArgoExporter.ParquetIo
open ArgoExporter.S3io
open ArgoExporter.Workflows
open ArgoExporter.Ledger (Visit LedgerInv RecordsHistory)

variable {Bytes : Type} (py : Platform Bytes)

/-! ## Runs -/

/-- The rows a cycle observes. -/
def observedRows {cfg : Config} (inputs : CycleInputs cfg) : List SnapshotRow :=
  match fetchWorkflows py inputs.now.text inputs.answers.entries with
  | .ok (rows, _) => rows
  | .error _ => []

/-- What a cycle adds to the history of the ledger: its observation, if it gets to its PUT of
    `runs.parquet` and that PUT takes effect. -/
def visit? {cfg : Config} (inputs : CycleInputs cfg) (store : ObjectStore Bytes) : Option Visit :=
  match prepare py cfg inputs.now inputs.uuid inputs.answers
      (getObject store inputs.getRuns (objectKey cfg.destPrefix "runs.parquet")) with
  | .ready _ _ =>
      if inputs.putWorkflows.isServed ∧ inputs.putRuns.tookEffect then
        some ⟨inputs.now, observedRows py inputs⟩
      else none
  | _ => none

/-- A store and the history of its ledger. -/
structure Progress (Bytes : Type) where
  store : ObjectStore Bytes
  history : List Visit

def cycleStep {cfg : Config} (progress : Progress Bytes) (inputs : CycleInputs cfg) :
    Progress Bytes :=
  ⟨(runCycle py cfg inputs progress.store).2,
    progress.history ++ (visit? py inputs progress.store).toList⟩

/-- One cycle after another, from a store with no history. -/
def exporterRun {cfg : Config} (store : ObjectStore Bytes) (cycles : List (CycleInputs cfg)) :
    Progress Bytes :=
  cycles.foldl (cycleStep py) ⟨store, []⟩

variable {py}

theorem exporterRun_concat {cfg : Config} (store : ObjectStore Bytes)
    (cycles : List (CycleInputs cfg)) (inputs : CycleInputs cfg) :
    exporterRun py store (cycles ++ [inputs]) =
      cycleStep py (exporterRun py store cycles) inputs := by
  rw [exporterRun, List.foldl_append, List.foldl_cons, List.foldl_nil, exporterRun]

/-! ## One cycle -/

theorem publish_cons (key : String → String) (store : ObjectStore Bytes) (published : List String)
    (upload : Upload Bytes) (uploads : List (Upload Bytes)) :
    (publish key store published (upload :: uploads)).2 =
      if upload.outcome.isServed then
        (publish key (uploadBytes store upload.outcome (key upload.name) upload.data).2
          (published ++ [upload.name]) uploads).2
      else (uploadBytes store upload.outcome (key upload.name) upload.data).2 := by
  rw [publish]
  cases upload.outcome <;> rfl

/-- A publish phase leaves objects of other names alone. -/
theorem publish_ne {key : String → String} (hkey : Function.Injective key) {name : String}
    {uploads : List (Upload Bytes)} (hname : name ∉ uploads.map Upload.name)
    (store : ObjectStore Bytes) (published : List String) :
    (publish key store published uploads).2 (key name) = store (key name) := by
  induction uploads generalizing store published with
  | nil => rfl
  | cons upload uploads ih =>
      rw [List.map_cons, List.mem_cons, not_or] at hname
      have hne : key name ≠ key upload.name := fun h => hname.1 (hkey h)
      rw [publish_cons]
      split
      · rw [ih hname.2, uploadBytes_ne _ _ _ hne]
      · rw [uploadBytes_ne _ _ _ hne]

/-- The ledger object after a publish phase: written if the phase got there. -/
theorem publish_runs {key : String → String} (hkey : Function.Injective key) {cfg : Config}
    (inputs : CycleInputs cfg) (payloads : Payloads Bytes) (store : ObjectStore Bytes) :
    (publish key store [] (uploads inputs payloads)).2 (key "runs.parquet") =
      if inputs.putWorkflows.isServed ∧ inputs.putRuns.tookEffect then some payloads.runs
      else store (key "runs.parquet") := by
  have hworkflows : key "runs.parquet" ≠ key "workflows.parquet" :=
    fun h => absurd (hkey h) (by decide)
  have hmeta : "runs.parquet" ∉
      [(⟨"meta.json", payloads.meta, inputs.putMeta⟩ : Upload Bytes)].map Upload.name := by simp
  rw [uploads, publish_cons]
  dsimp only
  -- the ledger is uploaded only after the snapshot was served
  cases inputs.putWorkflows.isServed with
  | false => rw [if_neg (by simp), if_neg (by simp), uploadBytes_ne _ _ _ hworkflows]
  | true =>
      have hrest : ∀ store' : ObjectStore Bytes,
          (publish key store' ([] ++ ["workflows.parquet"])
            [⟨"runs.parquet", payloads.runs, inputs.putRuns⟩,
              ⟨"meta.json", payloads.meta, inputs.putMeta⟩]).2 (key "runs.parquet") =
            (uploadBytes store' inputs.putRuns (key "runs.parquet") payloads.runs).2
              (key "runs.parquet") := by
        intro store'
        rw [publish_cons]
        split
        · exact publish_ne hkey hmeta _ _
        · rfl
      rw [if_pos rfl, hrest, uploadBytes_self, uploadBytes_ne _ _ _ hworkflows]
      simp only [true_and]

/-- A cycle that adds nothing to the history leaves the ledger object alone. -/
theorem runs_of_visit_none {cfg : Config} {inputs : CycleInputs cfg} {store : ObjectStore Bytes}
    (h : visit? py inputs store = none) :
    (runCycle py cfg inputs store).2 (objectKey cfg.destPrefix "runs.parquet") =
      store (objectKey cfg.destPrefix "runs.parquet") := by
  unfold visit? at h
  unfold runCycle
  dsimp only
  cases hprep : prepare py cfg inputs.now inputs.uuid inputs.answers
      (getObject store inputs.getRuns (objectKey cfg.destPrefix "runs.parquet")) with
  | skip stats => rfl
  | fail e phase stats => rfl
  -- a cycle that got this far did not land its ledger
  | ready payloads stats =>
      rw [hprep] at h
      dsimp only at h ⊢
      rw [afterPublish_store, publish_runs (objectKey_injective cfg.destPrefix), if_neg]
      intro hlanded
      rw [if_pos hlanded] at h
      exact absurd h (by simp)

/-- A cycle that adds a visit replaces the ledger by its merge with the rows of the visit. -/
theorem runs_of_visit_some (hpq : ParquetFaithful py) (hjson : JsonFaithful py) {cfg : Config}
    {inputs : CycleInputs cfg} {store : ObjectStore Bytes} {visit : Visit}
    (h : visit? py inputs store = some visit) :
    ∃ stored merged data,
      (∀ row ∈ visit.rows, Ledger.rederive py row = row.shared) ∧
      parquetBytesToTable py (store (objectKey cfg.destPrefix "runs.parquet")) runsSchema =
        .ok stored ∧
      Ledger.merge py (ledgerRows stored) visit.rows visit.time.text cfg.runRetentionDays =
        .ok merged ∧
      (runCycle py cfg inputs store).2 (objectKey cfg.destPrefix "runs.parquet") = some data ∧
      parquetBytesToTable py (some data) runsSchema =
        .ok (tableOf (merged.map LedgerRow.toRecord) runsSchema) := by
  unfold visit? at h
  unfold runCycle
  dsimp only
  cases hprep : prepare py cfg inputs.now inputs.uuid inputs.answers
      (getObject store inputs.getRuns (objectKey cfg.destPrefix "runs.parquet")) with
  | skip stats => simp [hprep] at h
  | fail e phase stats => simp [hprep] at h
  | ready payloads stats =>
      rw [hprep] at h
      dsimp only at h ⊢
      -- the ledger landed, or this was no visit
      by_cases hlanded : inputs.putWorkflows.isServed = true ∧ inputs.putRuns.tookEffect = true
      · rw [if_pos hlanded, Option.some.injEq] at h
        obtain ⟨rows, stored, hfetch, _, hledger, hcompute⟩ := (prepare_eq_ready_iff py).mp hprep
        have hrows : observedRows py inputs = rows := by rw [observedRows, hfetch]
        rw [hrows] at h
        subst h
        obtain ⟨merged, hmerge, _, hruns, _, _⟩ := decode_of_compute hpq hjson hcompute
        unfold readLedger at hledger
        obtain ⟨data, hdownload, hdecode⟩ := bind_eq_ok.mp hledger
        obtain ⟨_, rfl⟩ := downloadBytes_eq_ok hdownload
        refine ⟨stored, merged, payloads.runs, ?_, hdecode, hmerge, ?_, hruns⟩
        · intro row hrow
          obtain ⟨wf, clusterName, hwf⟩ := toRow_of_fetch hfetch row hrow
          exact Ledger.rederive_toRow hwf
        · rw [afterPublish_store, publish_runs (objectKey_injective cfg.destPrefix),
            if_pos hlanded]
      · rw [if_neg hlanded] at h
        exact absurd h (by simp)

theorem time_of_visit {cfg : Config} {inputs : CycleInputs cfg} {store : ObjectStore Bytes}
    {visit : Visit} (h : visit? py inputs store = some visit) : visit.time = inputs.now := by
  unfold visit? at h
  split at h
  · split at h
    · rw [← Option.some.inj h]
    · exact absurd h (by simp)
  · exact absurd h (by simp)

theorem rows_of_visit {cfg : Config} {inputs : CycleInputs cfg} {store : ObjectStore Bytes}
    {visit : Visit} (h : visit? py inputs store = some visit) :
    visit.rows = observedRows py inputs := by
  unfold visit? at h
  split at h
  · split at h
    · rw [← Option.some.inj h]
    · exact absurd h (by simp)
  · exact absurd h (by simp)

/-! ## Whole runs -/

/-- The stored ledger object, if any, is the one of this history. -/
structure Tracks (py : Platform Bytes) (retentionDays : Int) (stored : Option Bytes)
    (history : List Visit) : Prop where
  absent_iff : stored = none ↔ history = []
  ledger : ∃ table, parquetBytesToTable py stored runsSchema = .ok table ∧
    LedgerInv retentionDays history (ledgerRows table)

theorem tracks_nil (hpq : ParquetFaithful py) (retentionDays : Int) :
    Tracks py retentionDays none [] :=
  ⟨⟨fun _ => rfl, fun _ => rfl⟩, tableOf [] runsSchema, decode_none hpq (Or.inr rfl),
    Ledger.ledgerInv_nil retentionDays⟩

/-- The cutoff of this instant is a canonical instant. -/
def HasCutoff (retentionDays : Int) (now : Stamp) : Prop :=
  ∃ c : Stamp, (now.secs : Int) - retentionDays * secondsPerDay = c.secs

/-- However a cycle ends, the ledger tracks the history. -/
theorem tracks_runCycle (hpq : ParquetFaithful py) (hjson : JsonFaithful py) {cfg : Config}
    (hretention : 0 ≤ cfg.runRetentionDays) {store : ObjectStore Bytes} {history : List Visit}
    (h : Tracks py cfg.runRetentionDays (store (objectKey cfg.destPrefix "runs.parquet")) history)
    {inputs : CycleInputs cfg} (hcut : HasCutoff cfg.runRetentionDays inputs.now) :
    Tracks py cfg.runRetentionDays
      ((runCycle py cfg inputs store).2 (objectKey cfg.destPrefix "runs.parquet"))
      (history ++ (visit? py inputs store).toList) := by
  cases hvisit : visit? py inputs store with
  | none =>
      rw [runs_of_visit_none hvisit, Option.toList_none, List.append_nil]
      exact h
  | some visit =>
      obtain ⟨stored, merged, data, hsettled, hdecode, hmerge, hruns, hdata⟩ :=
        runs_of_visit_some hpq hjson hvisit
      obtain ⟨table, htable, hinv⟩ := h.ledger
      rw [htable, Except.ok.injEq] at hdecode
      subst hdecode
      obtain ⟨c, hc⟩ := hcut
      rw [← time_of_visit hvisit] at hc
      have hinv' := Ledger.ledgerInv_merge hinv hretention hc hsettled hmerge
      rw [← ledgerRows_tableOf merged] at hinv'
      rw [hruns, Option.toList_some]
      exact ⟨by simp, _, hdata, hinv'⟩

/-- The ledger tracks the history along every run. -/
theorem tracks_exporterRun (hpq : ParquetFaithful py) (hjson : JsonFaithful py) {cfg : Config}
    (hretention : 0 ≤ cfg.runRetentionDays) {store : ObjectStore Bytes}
    (hempty : store (objectKey cfg.destPrefix "runs.parquet") = none)
    {cycles : List (CycleInputs cfg)}
    (hcut : ∀ inputs ∈ cycles, HasCutoff cfg.runRetentionDays inputs.now) :
    Tracks py cfg.runRetentionDays
      ((exporterRun py store cycles).store (objectKey cfg.destPrefix "runs.parquet"))
      (exporterRun py store cycles).history := by
  -- the ledger tracks the visits of the cycles so far
  induction cycles using List.reverseRecOn with
  | nil =>
      have hstart := tracks_nil hpq cfg.runRetentionDays
      rw [← hempty] at hstart
      exact hstart
  | append_singleton cycles inputs ih =>
      rw [List.forall_mem_append] at hcut
      rw [exporterRun_concat]
      exact tracks_runCycle hpq hjson hretention (ih hcut.1)
        (hcut.2 inputs (List.mem_singleton_self inputs))

/-- The times of the history are times of cycles of the run, in their order. -/
theorem history_times {cfg : Config} (store : ObjectStore Bytes)
    (cycles : List (CycleInputs cfg)) :
    ((exporterRun py store cycles).history.map fun visit => visit.time.secs).Sublist
      (cycles.map fun inputs => inputs.now.secs) := by
  induction cycles using List.reverseRecOn with
  | nil => exact List.Sublist.refl []
  | append_singleton cycles inputs ih =>
      rw [exporterRun_concat, cycleStep, List.map_append, List.map_append]
      refine ih.append ?_
      cases hvisit : visit? py inputs (exporterRun py store cycles).store with
      | none => exact List.nil_sublist _
      | some visit =>
          rw [Option.toList_some, List.map_singleton, List.map_singleton, time_of_visit hvisit]

/-- After any run of one exporter on a prefix without a ledger, `runs.parquet` is there once a PUT
    of it took effect, and holds exactly the observation history of the cycles in which it did. -/
theorem stored_ledger_is_history (hpq : ParquetFaithful py) (hjson : JsonFaithful py)
    {environ : Config.Environ} {versionFile : String → Except Exc String} {cfg : Config}
    (hload : Config.load py environ versionFile = .ok cfg) {store : ObjectStore Bytes}
    (hempty : store (objectKey cfg.destPrefix "runs.parquet") = none)
    (cycles : List (CycleInputs cfg))
    (hordered : (cycles.map fun inputs => inputs.now.secs).Pairwise (· ≤ ·))
    (hcut : ∀ inputs ∈ cycles, HasCutoff cfg.runRetentionDays inputs.now) :
    let progress := exporterRun py store cycles
    let stored := progress.store (objectKey cfg.destPrefix "runs.parquet")
    (stored = none ↔ progress.history = []) ∧
      ∃ table, parquetBytesToTable py stored runsSchema = .ok table ∧
        RecordsHistory cfg.runRetentionDays progress.history (ledgerRows table) := by
  have hretention := Int.le_of_lt (Config.load_accepted hload).retention_pos
  obtain ⟨habsent, table, htable, hinv⟩ := tracks_exporterRun hpq hjson hretention hempty hcut
  exact ⟨habsent, table, htable,
    Ledger.recordsHistory_of_inv hinv hretention (hordered.sublist (history_times store cycles))⟩

/-- A published cycle, then one that stops before its sidecar. -/
theorem stored_ledger_is_history_torn :
    let progress := exporterRun Reference.platform Reference.emptyStore
      [Reference.cycle 0 'a' .served,
        Reference.cycle 61 'b' (.failed ⟨.clientError "InternalError", "put"⟩ false)]
    let stored := progress.store (objectKey Reference.config.destPrefix "runs.parquet")
    (stored = none ↔ progress.history = []) ∧
      ∃ table, parquetBytesToTable Reference.platform stored runsSchema = .ok table ∧
        RecordsHistory 7 progress.history (ledgerRows table) := by
  refine stored_ledger_is_history Reference.parquetFaithful Reference.jsonFaithful
    Reference.config_loaded rfl _ (by decide) ?_
  intro inputs hinputs
  simp only [List.mem_cons, List.not_mem_nil, or_false] at hinputs
  rcases hinputs with rfl | rfl
  · exact ⟨Reference.weekBefore 0, by decide⟩
  · exact ⟨Reference.weekBefore 61, by decide⟩

end ArgoExporter.Main
