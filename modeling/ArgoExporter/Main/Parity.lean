/-
  ArgoExporter.Main.Parity

  The two files of one cycle agree: every snapshot row has exactly one ledger
  row of its run, with the same shared columns, seen at the time of the cycle.
-/

import ArgoExporter.Main.Acceptance

namespace ArgoExporter.Main

open ArgoExporter.Py
open ArgoExporter.ParquetIo
open ArgoExporter.S3io
open ArgoExporter.Workflows
open ArgoExporter.Ledger (identity)

variable {Bytes : Type} {py : Platform Bytes}

/-- `stored` is the ledger's account of a run that the snapshot shows at `generatedAt`. -/
structure Records (generatedAt : String) (row : SnapshotRow) (stored : LedgerRow) : Prop where
  shared : stored.shared = row.shared
  lastSeenAt : stored.lastSeenAt = row.observedAt
  observedAt : row.observedAt = .str generatedAt

/-- Every snapshot row has exactly one ledger row of its run, which records it. -/
def Agrees (generatedAt : String) (snapshot : List SnapshotRow) (ledger : List LedgerRow) : Prop :=
  ∀ row ∈ snapshot, ∃ stored,
    ledger.filter (fun r => identity r.shared = identity row.shared) = [stored] ∧
      Records generatedAt row stored

section Merge

variable {answers : List (Cluster × K8sApi.ListOutcome)} {now : Stamp} {rows : List SnapshotRow}
  {stats : List ClusterStat} {existing merged : List LedgerRow} {retentionDays : Int}

/-- Whatever was stored before, the merge of a cycle's rows agrees with them. -/
theorem agrees_of_merge (hfetch : fetchWorkflows py now.text answers = .ok (rows, stats))
    (hnames : (answers.map fun a => a.1.name).Nodup) (hdistinct : DistinctUids answers)
    (hretention : 0 < retentionDays) {c : Stamp}
    (hc : (now.secs : Int) - retentionDays * secondsPerDay = c.secs)
    (hmerge : Ledger.merge py existing rows now.text retentionDays = .ok merged) :
    Agrees now.text rows merged := by
  have horigin := toRow_of_fetch hfetch
  have hnodup := Ledger.identity_nodup horigin (cells_nodup_of_fetch hfetch hnames hdistinct)
  -- retention is positive, so no row observed now is older than the cutoff
  have hle : c.text ≤ now.text := by
    rw [Stamp.text_le_text]
    unfold secondsPerDay at hc
    omega
  intro row hrow
  obtain ⟨wf, clusterName, hwf⟩ := horigin row hrow
  -- each run is in the snapshot once, so its row is its last observation
  have hlast := Ledger.lastObservation_of_nodup hnodup hrow (toRow_uid hwf).2.truthy
  refine ⟨_, Ledger.merged_of_lastObservation hmerge (Ledger.cutoff_text py hc) hle hlast, ?_⟩
  have hobserved := (toRow_stamps hwf).2
  exact ⟨Ledger.rederive_toRow hwf, hobserved.symm, hobserved⟩

/-- Agreement embeds the runs of the snapshot into those of the ledger. -/
theorem Agrees.length_le {generatedAt : String} {snapshot : List SnapshotRow}
    {ledger : List LedgerRow} (h : Agrees generatedAt snapshot ledger)
    (hnodup : (snapshot.map fun row => identity row.shared).Nodup) :
    snapshot.length ≤ ledger.length := by
  -- every run of the snapshot is a run of the ledger
  have hsub : (snapshot.map fun row => identity row.shared) ⊆
      ledger.map fun row => identity row.shared := by
    intro key hkey
    obtain ⟨row, hrow, rfl⟩ := List.mem_map.mp hkey
    obtain ⟨stored, hstored, _⟩ := h row hrow
    have hmem : stored ∈ ledger.filter fun r => identity r.shared = identity row.shared := by
      rw [hstored]
      exact List.mem_singleton_self stored
    rw [List.mem_filter, decide_eq_true_eq] at hmem
    exact List.mem_map.mpr ⟨stored, hmem⟩
  have hlength := (hnodup.subperm hsub).length_le
  rwa [List.length_map, List.length_map] at hlength

end Merge

/-- What the published bytes of a cycle say: two tables that agree, and a sidecar that counts at
    least as many runs as workflows. -/
structure PublishedParity (py : Platform Bytes) (now : Stamp) (payloads : Payloads Bytes) :
    Prop where
  tables : ∃ snapshot ledger,
    parquetBytesToTable py (some payloads.workflows) workflowsSchema = .ok snapshot ∧
    parquetBytesToTable py (some payloads.runs) runsSchema = .ok ledger ∧
    Agrees now.text (snapshotRows snapshot) (ledgerRows ledger)
  counts : ∃ metaJson, py.jsonLoads payloads.meta = .ok metaJson ∧
    ∃ workflows runs : Nat, metaJson.get "workflows" = .int workflows ∧
      metaJson.get "runs" = .int runs ∧ workflows ≤ runs

/-- Snapshot and ledger of one cycle agree, whatever ledger was stored before. -/
theorem snapshot_in_ledger (hpq : ParquetFaithful py) (hjson : JsonFaithful py)
    {environ : Config.Environ} {versionFile : String → Except Exc String} {cfg : Config}
    (hload : Config.load py environ versionFile = .ok cfg) {now : Stamp} {uuid : UuidHex}
    {answers : Answers cfg.clusters} (hdistinct : DistinctUids answers.entries) {c : Stamp}
    (hc : (now.secs : Int) - cfg.runRetentionDays * secondsPerDay = c.secs)
    {getRuns : Except Exc Bytes} {payloads : Payloads Bytes} {stats : List ClusterStat}
    (h : prepare py cfg now uuid answers getRuns = .ready payloads stats) :
    PublishedParity py now payloads := by
  have hcfg := Config.load_accepted hload
  obtain ⟨rows, stored, hfetch, _, _, hcompute⟩ := (prepare_eq_ready_iff py).mp h
  obtain ⟨merged, hmerge, hworkflows, hruns, hmeta, _⟩ := decode_of_compute hpq hjson hcompute
  have hnames : (answers.entries.map fun a => a.1.name).Nodup := by
    have hclusters := hcfg.clusters.names_nodup
    rw [← answers.clusters_eq, List.map_map] at hclusters
    exact hclusters
  have hagrees := agrees_of_merge hfetch hnames hdistinct hcfg.retention_pos hc hmerge
  have hnodup := Ledger.identity_nodup (toRow_of_fetch hfetch)
    (cells_nodup_of_fetch hfetch hnames hdistinct)
  exact {
    tables := ⟨_, _, hworkflows, hruns, by
      rw [snapshotRows_tableOf, ledgerRows_tableOf]
      exact hagrees⟩
    counts := ⟨_, hmeta, rows.length, merged.length, sidecar_workflows .., sidecar_runs ..,
      hagrees.length_le hnodup⟩ }

/-- The first cycle of the reference deployment, on an empty bucket. -/
theorem snapshot_in_ledger_reference :
    ∃ payloads, prepare Reference.platform Reference.config (Reference.instant 0)
        (Reference.uuid 'a') (Reference.answers [Reference.workflow "u-1" Reference.succeeded])
        (getObject Reference.emptyStore .served
          (objectKey Reference.config.destPrefix "runs.parquet")) =
          .ready payloads Reference.stats ∧
      PublishedParity Reference.platform (Reference.instant 0) payloads := by
  obtain ⟨payloads, hready⟩ := prepare_reference 0 (by decide) 'a' (by decide)
  refine ⟨payloads, hready, snapshot_in_ledger Reference.parquetFaithful Reference.jsonFaithful
    Reference.config_loaded ?_ (c := Reference.weekBefore 0) (by decide) hready⟩
  intro a ha items hitems
  simp only [Reference.answers, List.mem_cons, List.not_mem_nil, or_false] at ha
  rcases ha with rfl | rfl
  · obtain rfl := (Prod.mk.inj (Except.ok.inj hitems)).1
    exact List.nodup_singleton _
  · exact absurd (Prod.mk.inj (Except.ok.inj hitems)).2 (by decide)

end ArgoExporter.Main
