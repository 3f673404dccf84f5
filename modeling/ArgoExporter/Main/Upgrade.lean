/-
  ArgoExporter.Main.Upgrade

  Runs of an exporter on the ledger of an older release.  Whatever columns that
  release wrote, in whatever order, no cycle fails because of them: the ledger
  keeps being readable, and run by run it is what the visits make of the row the
  older release stored.
-/

import ArgoExporter.ParquetReleases
import ArgoExporter.PollLoop.Progress

namespace ArgoExporter.Main

open ArgoExporter.Py
open ArgoExporter.ParquetIo
open ArgoExporter.S3io
open ArgoExporter.Workflows
open ArgoExporter.Ledger (Visit Identity storedRow lastObservation firstSeen cutoff)

/-! ## Specification -/

/-- The runs in a stored file: a column it lacks is null. -/
def storedRuns (stored : Table) : List LedgerRow :=
  (List.range stored.numRows).map fun i =>
    LedgerRow.ofRecord (runsSchema.map fun f => (f.1, (cellsOf stored f.1).getD i .null))

variable {Bytes : Type} (py : Platform Bytes)

/-- Whether a row was seen since the cutoff of this instant. -/
def isRetained (retentionDays : Int) (generatedAt : String) (row : LedgerRow) : Bool :=
  match cutoff py retentionDays generatedAt with
  | .ok boundary => boundary ≤ row.lastSeenAt.orEmpty
  | .error _ => true

/-- The row of a run after one more visit. -/
def carry (retentionDays : Int) (key : Identity) (previous : Option LedgerRow) (visit : Visit) :
    Option LedgerRow :=
  let current : Option LedgerRow := match lastObservation visit.rows key with
    | some observed =>
        some ⟨observed.shared, firstSeen previous visit.time.text, .str visit.time.text⟩
    | none => previous
  current.filter (isRetained py retentionDays visit.time.text)

/-- The ledger object is readable, and has the initial rows carried through the visits. -/
def Carries (retentionDays : Int) (initial : List LedgerRow) (history : List Visit)
    (object : Option Bytes) : Prop :=
  ∃ table, parquetBytesToTable py object runsSchema = .ok table ∧
    ∀ key, storedRow (ledgerRows table) key =
      history.foldl (carry py retentionDays key) (storedRow initial key)

variable {py} {cfg : Config}

/-! ## One cycle -/

theorem ledgerRows_conformed (stored : Table) :
    ledgerRows (conformed stored runsSchema) = storedRuns stored := by
  rw [ledgerRows, Table.toPylist, List.map_map, storedRuns]
  apply List.map_congr_left
  intro i _
  rw [Function.comp_apply, conformed, fromArrays, List.map_map]
  rfl

/-- A merge carries every run by one visit. -/
theorem storedRow_of_merge {existing merged : List LedgerRow} {visit : Visit} {retentionDays : Int}
    (hsettled : ∀ row ∈ visit.rows, Ledger.rederive py row = row.shared)
    (h : Ledger.merge py existing visit.rows visit.time.text retentionDays = .ok merged)
    (key : Identity) :
    storedRow merged key = carry py retentionDays key (storedRow existing key) visit := by
  obtain ⟨boundary, hcut, _⟩ := Ledger.merge_eq_ok py h
  have hretained : isRetained py retentionDays visit.time.text =
      fun row : LedgerRow => decide (boundary ≤ row.lastSeenAt.orEmpty) := by
    funext row
    rw [isRetained, hcut]
  rw [Ledger.storedRow_merge hcut h, Ledger.get?_observeAll, carry, hretained]
  cases hlast : lastObservation visit.rows key with
  | none => rfl
  | some observed =>
      dsimp only
      rw [hsettled observed (Ledger.lastObservation_mem hlast).1]

theorem carries_runCycle (hpq : ParquetFaithful py) (hjson : JsonFaithful py)
    {initial : List LedgerRow} {store : ObjectStore Bytes} {history : List Visit}
    (h : Carries py cfg.runRetentionDays initial history
      (store (objectKey cfg.destPrefix "runs.parquet"))) (inputs : CycleInputs cfg) :
    Carries py cfg.runRetentionDays initial (history ++ (visit? py inputs store).toList)
      ((runCycle py cfg inputs store).2 (objectKey cfg.destPrefix "runs.parquet")) := by
  cases hvisit : visit? py inputs store with
  | none =>
      rw [runs_of_visit_none hvisit, Option.toList_none, List.append_nil]
      exact h
  | some visit =>
      obtain ⟨stored, merged, data, hsettled, hdecode, hmerge, hruns, hdata⟩ :=
        runs_of_visit_some hpq hjson hvisit
      obtain ⟨table, htable, hrows⟩ := h
      rw [htable, Except.ok.injEq] at hdecode
      subst hdecode
      rw [hruns, Option.toList_some]
      refine ⟨_, hdata, fun key => ?_⟩
      rw [ledgerRows_tableOf, storedRow_of_merge hsettled hmerge, hrows key, List.foldl_append]
      rfl

/-! ## Whole runs -/

theorem carries_exporterRun (hpq : ParquetFaithful py) (hjson : JsonFaithful py)
    {initial : List LedgerRow} {store : ObjectStore Bytes}
    (h : Carries py cfg.runRetentionDays initial []
      (store (objectKey cfg.destPrefix "runs.parquet"))) (cycles : List (CycleInputs cfg)) :
    Carries py cfg.runRetentionDays initial (exporterRun py store cycles).history
      ((exporterRun py store cycles).store (objectKey cfg.destPrefix "runs.parquet")) := by
  induction cycles using List.reverseRecOn with
  | nil => exact h
  | append_singleton cycles inputs ih =>
      rw [exporterRun_concat]
      exact carries_runCycle hpq hjson ih inputs

/-- From the ledger of an older release on, whatever ends the cycles of a run, the ledger stays
    readable, its runs are those of the older ledger carried through the visits, and every cycle
    that collects something gets to its publish phase. -/
theorem upgraded_ledger_is_carried (hpq : ParquetFaithful py) (hjson : JsonFaithful py)
    (hcfg : cfg.Accepted) {store : ObjectStore Bytes} {data : Bytes} {stored : Table}
    (hobject : store (objectKey cfg.destPrefix "runs.parquet") = some data)
    (hread : py.readTable data = .ok stored) (hstored : ReadableAs runsSchema stored)
    (cycles : List (CycleInputs cfg)) :
    let progress := exporterRun py store cycles
    Carries py cfg.runRetentionDays (storedRuns stored) progress.history
        (progress.store (objectKey cfg.destPrefix "runs.parquet")) ∧
      ∀ inputs : CycleInputs cfg, Collectable py cfg inputs →
        ∃ payloads stats, prepare py cfg inputs.now inputs.uuid inputs.answers
          (getObject progress.store inputs.getRuns (objectKey cfg.destPrefix "runs.parquet")) =
            .ready payloads stats := by
  have hstart : Carries py cfg.runRetentionDays (storedRuns stored) []
      (store (objectKey cfg.destPrefix "runs.parquet")) := by
    refine ⟨conformed stored runsSchema, ?_, fun key => ?_⟩
    · rw [hobject, parquetBytesToTable, hread, ok_bind]
      exact conform_readable hpq hstored
    · rw [ledgerRows_conformed]
      rfl
  have hcarries := carries_exporterRun hpq hjson hstart cycles
  refine ⟨hcarries, fun inputs hinputs => ?_⟩
  obtain ⟨table, hdecode, _⟩ := hcarries
  exact ready_of_readable hpq hjson hcfg ⟨table, hdecode⟩ hinputs

/-! ## The ledger of a release without phases -/

/-- A run in two columns, with one that is no longer declared. -/
def oldLedger : Table :=
  ⟨1, [⟨"last_seen_at", .string, [.str "2026-01-01T00:00:00Z"]⟩, ⟨"owner", .string, [.str "ci"]⟩,
    ⟨"uid", .string, [.str "u-9"]⟩], []⟩

def oldStore : ObjectStore Reference.TaggedBytes :=
  fun key => if key = objectKey Reference.config.destPrefix "runs.parquet" then
    some (.parquet oldLedger) else none

theorem readableAs_oldLedger : ReadableAs runsSchema oldLedger where
  nodup := by decide
  typed := by decide

/-- An old ledger is carried through a cycle that publishes and one whose PUT fails. -/
theorem upgraded_ledger_is_carried_old :
    let progress := exporterRun Reference.platform oldStore
      [Reference.cycle 0 'a' .served,
        Reference.cycle 61 'b' (.failed ⟨.clientError "InternalError", "put"⟩ false)]
    Carries Reference.platform Reference.config.runRetentionDays (storedRuns oldLedger)
        progress.history (progress.store (objectKey Reference.config.destPrefix "runs.parquet")) ∧
      ∀ inputs : CycleInputs Reference.config, Collectable Reference.platform Reference.config inputs →
        ∃ payloads stats, prepare Reference.platform Reference.config inputs.now inputs.uuid
          inputs.answers (getObject progress.store inputs.getRuns
            (objectKey Reference.config.destPrefix "runs.parquet")) = .ready payloads stats :=
  upgraded_ledger_is_carried Reference.parquetFaithful Reference.jsonFaithful
    (Config.load_accepted Reference.config_loaded) (if_pos rfl) rfl readableAs_oldLedger _

end ArgoExporter.Main
