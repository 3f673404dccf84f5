/-
  ArgoExporter.Main.Acceptance

  What a cycle publishes, the reference consumer accepts: the cycle reaches its
  publish phase, and a read of the store it leaves reports the three objects
  it wrote as one fresh publication, none of whose rows the consumer drops.
-/

import ArgoExporter.Consumer.Selection
import ArgoExporter.Ledger.Spec
import ArgoExporter.Main.Atomicity
import ArgoExporter.Main.Sidecar

namespace ArgoExporter.Main

open ArgoExporter.Py
open ArgoExporter.ParquetIo
open ArgoExporter.S3io
open ArgoExporter.Workflows
open ArgoExporter.Consumer

variable {Bytes : Type} {py : Platform Bytes}

/-! ## The compute phase -/

section Compute

variable {cfg : Config} {now : Stamp} {uuid : UuidHex} {rows : List SnapshotRow}
  {stats : List ClusterStat} {stored : Table} {payloads : Payloads Bytes}

/-- A well-formed collection and a readable ledger compute three payloads. -/
theorem compute_of_collected (hpq : ParquetFaithful py) (hjson : JsonFaithful py)
    (hcfg : cfg.Accepted) (hcollected : Collected cfg.clusters now.text rows stats)
    (hfits : ∀ row ∈ rows, Record.Fits workflowsSchema row.toRecord)
    (hstored : ∀ row ∈ stored.toPylist, Record.Fits runsSchema row) {boundary : String}
    (hcut : Ledger.cutoff py cfg.runRetentionDays now.text = .ok boundary) :
    ∃ payloads, compute py cfg now uuid rows stats stored = .ok payloads := by
  obtain ⟨merged, hmerge⟩ : ∃ merged, Ledger.merge py (stored.toPylist.map LedgerRow.ofRecord) rows
      now.text cfg.runRetentionDays = .ok merged := Ledger.merge_of_cutoff py hcut
  -- both inputs of the merge fit the ledger schema, so its result does
  have hexisting : ∀ row ∈ stored.toPylist.map LedgerRow.ofRecord,
      Record.Fits runsSchema row.toRecord := by
    intro row hrow
    obtain ⟨r, hr, rfl⟩ := List.mem_map.mp hrow
    exact (fits_ofRecord_iff r).mpr (hstored r hr)
  have hmerged := Ledger.fits_merge hmerge hexisting hfits
  obtain ⟨workflows, hworkflows⟩ := (encode_ok_iff hpq (Or.inl rfl) (generationId now uuid)).mpr
    (List.forall_mem_map.mpr hfits)
  obtain ⟨runs, hruns⟩ := (encode_ok_iff hpq (Or.inr rfl) (generationId now uuid)).mpr
    (List.forall_mem_map.mpr hmerged)
  have hvalid := MetaSchema.validate_sidecar py hcfg now uuid hcollected merged.length
  obtain ⟨metaBytes, hmeta⟩ := hjson.dumps_ok _
    (distinctKeys_sidecar cfg now uuid stats rows.length merged.length)
  refine ⟨⟨workflows, runs, metaBytes⟩, ?_⟩
  unfold compute
  rw [hmerge, ok_bind, hworkflows, ok_bind, hruns, ok_bind]
  dsimp only
  rw [hvalid, ok_bind, hmeta, ok_bind]
  rfl

/-- The payloads of a cycle decode to its rows and its sidecar. -/
theorem decode_of_compute (hpq : ParquetFaithful py) (hjson : JsonFaithful py)
    (h : compute py cfg now uuid rows stats stored = .ok payloads) :
    ∃ merged, Ledger.merge py (ledgerRows stored) rows now.text cfg.runRetentionDays = .ok merged ∧
      parquetBytesToTable py (some payloads.workflows) workflowsSchema =
        .ok (tableOf (rows.map SnapshotRow.toRecord) workflowsSchema) ∧
      parquetBytesToTable py (some payloads.runs) runsSchema =
        .ok (tableOf (merged.map LedgerRow.toRecord) runsSchema) ∧
      py.jsonLoads payloads.meta = .ok (sidecar cfg now uuid stats rows.length merged.length) ∧
      OneGeneration py ⟨sidecar cfg now uuid stats rows.length merged.length,
        some payloads.workflows, some payloads.runs⟩ (generationId now uuid) := by
  obtain ⟨merged, hmerge, hworkflows, hruns, hvalid, hmeta⟩ := compute_eq_ok py h
  refine ⟨merged, hmerge, decode_encode hpq (Or.inl rfl) hworkflows,
    decode_encode hpq (Or.inr rfl) hruns,
    hjson.loads_dumps _ _ (distinctKeys_sidecar cfg now uuid stats rows.length merged.length) hmeta,
    ?_⟩
  exact {
    valid := hvalid
    «meta» := metaGenerationId_eq_some.mpr ⟨rfl, MetaSchema.generationId_ne_empty now uuid⟩
    workflows := footerGenerationId_eq_some.mpr
      ⟨_, rfl, readGenerationId_encode hpq (Or.inl rfl) hworkflows⟩
    runs := footerGenerationId_eq_some.mpr
      ⟨_, rfl, readGenerationId_encode hpq (Or.inr rfl) hruns⟩
    start := MetaSchema.generatedAt_starts now uuid }

end Compute

/-! ## Reaching the publish phase -/

/-- The ledger object can be read. -/
def Readable (py : Platform Bytes) (cfg : Config) (store : ObjectStore Bytes) : Prop :=
  ∃ table, parquetBytesToTable py (store (objectKey cfg.destPrefix "runs.parquet")) runsSchema =
    .ok table

theorem readable_of_absent (hpq : ParquetFaithful py) {cfg : Config} {store : ObjectStore Bytes}
    (h : store (objectKey cfg.destPrefix "runs.parquet") = none) : Readable py cfg store :=
  ⟨_, h ▸ decode_none hpq (Or.inr rfl)⟩

/-- On a readable ledger a cycle that lists rows that fit gets to its publish phase. -/
theorem prepare_of_readable (hpq : ParquetFaithful py) (hjson : JsonFaithful py) {cfg : Config}
    (hcfg : cfg.Accepted) {store : ObjectStore Bytes} (hstore : Readable py cfg store)
    {inputs : CycleInputs cfg} (hget : inputs.getRuns = .served) {rows : List SnapshotRow}
    {stats : List ClusterStat}
    (hfetch : fetchWorkflows py inputs.now.text inputs.answers.entries = .ok (rows, stats))
    (hany : stats.any ClusterStat.ok = true)
    (hfits : ∀ row ∈ rows, Record.Fits workflowsSchema row.toRecord) {boundary : String}
    (hcut : Ledger.cutoff py cfg.runRetentionDays inputs.now.text = .ok boundary) :
    ∃ payloads, prepare py cfg inputs.now inputs.uuid inputs.answers
      (getObject store inputs.getRuns (objectKey cfg.destPrefix "runs.parquet")) =
        .ready payloads stats := by
  obtain ⟨table, hdecode⟩ := hstore
  have hcollected := collected_of_fetch hfetch
  rw [inputs.answers.clusters_eq] at hcollected
  obtain ⟨payloads, hcompute⟩ := compute_of_collected hpq hjson hcfg
    hcollected hfits (fits_of_decode hpq (Or.inr rfl) hdecode) hcut
  have hledger : readLedger py (getObject store inputs.getRuns
      (objectKey cfg.destPrefix "runs.parquet")) = .ok table := by
    rw [hget, readLedger, downloadBytes_getObject]
    exact hdecode
  exact ⟨payloads, (prepare_eq_ready_iff py).mpr ⟨rows, table, hfetch, hany, hledger, hcompute⟩⟩

/-- A cycle of the reference deployment gets to its publish phase on a readable ledger. -/
theorem prepare_reference_of_readable {store : ObjectStore Reference.TaggedBytes}
    (h : Readable Reference.platform Reference.config store) (n : Nat) (hn : n < 1000000) (c : Char)
    (hc : MetaSchema.hexClass c = true) :
    ∃ payloads, prepare Reference.platform Reference.config (Reference.instant n hn)
      (Reference.uuid c hc) (Reference.answers [Reference.workflow "u-1" Reference.succeeded])
      (getObject store .served (objectKey Reference.config.destPrefix "runs.parquet")) =
        .ready payloads Reference.stats :=
  prepare_of_readable Reference.parquetFaithful Reference.jsonFaithful
    (Config.load_accepted Reference.config_loaded) h
    (show (Reference.cycle n c .served hn hc).getRuns = .served from rfl)
    (Reference.fetch_answers _) rfl (Reference.rows_fit _) (Reference.cutoff_instant n hn)

theorem prepare_reference (n : Nat) (hn : n < 1000000) (c : Char)
    (hc : MetaSchema.hexClass c = true) :
    ∃ payloads, prepare Reference.platform Reference.config (Reference.instant n hn)
      (Reference.uuid c hc) (Reference.answers [Reference.workflow "u-1" Reference.succeeded])
      (getObject Reference.emptyStore .served
        (objectKey Reference.config.destPrefix "runs.parquet")) =
        .ready payloads Reference.stats :=
  prepare_reference_of_readable (readable_of_absent Reference.parquetFaithful rfl) n hn c hc

/-! ## The publish phase -/

/-- Every PUT of the cycle is served. -/
def CycleInputs.PutsServed {cfg : Config} (inputs : CycleInputs cfg) : Prop :=
  inputs.putWorkflows = .served ∧ inputs.putRuns = .served ∧ inputs.putMeta = .served

/-- The store after the three objects are written under the keys of their names. -/
def writePayloads (key : String → String) (store : ObjectStore Bytes) (payloads : Payloads Bytes) :
    ObjectStore Bytes :=
  ((store.write (key "workflows.parquet") payloads.workflows).write
    (key "runs.parquet") payloads.runs).write (key "meta.json") payloads.meta

theorem publish_served (key : String → String) (store : ObjectStore Bytes) {cfg : Config}
    {inputs : CycleInputs cfg} (h : inputs.PutsServed) (payloads : Payloads Bytes) :
    publish key store [] (uploads inputs payloads) =
      (.ok (), writePayloads key store payloads) := by
  obtain ⟨hworkflows, hruns, hmeta⟩ := h
  simp only [uploads, publish, hworkflows, hruns, hmeta, uploadBytes]
  rfl

theorem runCycle_served {cfg : Config} {inputs : CycleInputs cfg} {store : ObjectStore Bytes}
    {payloads : Payloads Bytes} {stats : List ClusterStat} (h : inputs.PutsServed)
    (hprep : prepare py cfg inputs.now inputs.uuid inputs.answers
      (getObject store inputs.getRuns (objectKey cfg.destPrefix "runs.parquet")) =
        .ready payloads stats) :
    runCycle py cfg inputs store =
      (.published, writePayloads (objectKey cfg.destPrefix) store payloads) := by
  unfold runCycle
  simp only [hprep, publish_served _ store h payloads, afterPublish]

section Written

variable {key : String → String} (store : ObjectStore Bytes) (payloads : Payloads Bytes)

theorem writePayloads_meta :
    writePayloads key store payloads (key "meta.json") = some payloads.meta :=
  ObjectStore.write_self _ _ _

theorem writePayloads_runs (hkey : Function.Injective key) :
    writePayloads key store payloads (key "runs.parquet") = some payloads.runs := by
  rw [writePayloads, ObjectStore.write_ne _ _ fun h => absurd (hkey h) (by decide),
    ObjectStore.write_self]

theorem writePayloads_workflows (hkey : Function.Injective key) :
    writePayloads key store payloads (key "workflows.parquet") = some payloads.workflows := by
  rw [writePayloads, ObjectStore.write_ne _ _ fun h => absurd (hkey h) (by decide),
    ObjectStore.write_ne _ _ fun h => absurd (hkey h) (by decide), ObjectStore.write_self]

end Written

/-- A read of a store with one generation reports it. -/
theorem readStore_writePayloads (store : ObjectStore Bytes) {pfx : String}
    {payloads : Payloads Bytes} {metaJson : Json} {id : String}
    (hmeta : py.jsonLoads payloads.meta = .ok metaJson)
    (hone : OneGeneration py ⟨metaJson, some payloads.workflows, some payloads.runs⟩ id)
    (last : Option (Publication Bytes)) :
    readStore py (writePayloads (objectKey pfx) store payloads) pfx last none =
      .ok ⟨some ⟨metaJson, some payloads.workflows, some payloads.runs⟩, .fresh, none⟩ := by
  have hkey := objectKey_injective pfx
  unfold readStore Consumer.key getObject
  rw [writePayloads_meta, writePayloads_workflows _ _ hkey, writePayloads_runs _ _ hkey]
  exact read_of_oneGeneration hmeta hone last

/-! ## Current rows -/

theorem availabilityEntry_clusterEntry {seen : List (String × Bool)} (index : Nat)
    {stat : ClusterStat} (hname : stat.name ≠ "") (hnew : stat.name ∉ seen.map Prod.fst) :
    availabilityEntry py seen index (clusterEntry stat) = .ok (stat.name, stat.ok) := by
  have hget : (clusterEntry stat).get "name" = .str stat.name := rfl
  have hok : (clusterEntry stat).get "ok" = .bool stat.ok := rfl
  unfold availabilityEntry
  rw [if_neg (by simp [clusterEntry, Json.isDict]), hget, hok]
  dsimp only
  rw [if_neg hname, if_neg hnew]

/-- Availability as the collection recorded it. -/
theorem availabilityEntries_clusterEntries {seen : List (String × Bool)} {index : Nat}
    {stats : List ClusterStat} (hne : ∀ stat ∈ stats, stat.name ≠ "")
    (hnd : (seen.map Prod.fst ++ stats.map ClusterStat.name).Nodup) :
    availabilityEntries py seen index (stats.map clusterEntry) =
      .ok (seen ++ stats.map fun stat => (stat.name, stat.ok)) := by
  induction stats generalizing seen index with
  | nil => simp [availabilityEntries]
  | cons stat stats ih =>
      rw [List.forall_mem_cons] at hne
      -- the name has not been seen: the names of all entries differ
      have hnew : stat.name ∉ seen.map Prod.fst := fun hmem =>
        (List.nodup_append.mp hnd).2.2 _ hmem _ List.mem_cons_self rfl
      have hnd' : ((seen ++ [(stat.name, stat.ok)]).map Prod.fst ++
          stats.map ClusterStat.name).Nodup := by
        simpa [List.append_assoc] using hnd
      rw [List.map_cons, availabilityEntries, availabilityEntry_clusterEntry index hne.1 hnew,
        ok_bind, ih hne.2 hnd', List.map_cons, List.append_assoc]
      rfl

/-- The consumer keeps every row of a well-formed collection. -/
theorem currentSnapshotRows_eq {cfg : Config} (hcfg : cfg.Accepted) {now : Stamp} {uuid : UuidHex}
    {rows : List SnapshotRow} {stats : List ClusterStat} {runs : Nat} {payloads : Payloads Bytes}
    (hcollected : Collected cfg.clusters now.text rows stats)
    (hdecode : parquetBytesToTable py (some payloads.workflows) workflowsSchema =
      .ok (tableOf (rows.map SnapshotRow.toRecord) workflowsSchema)) :
    currentSnapshotRows py ⟨sidecar cfg now uuid stats rows.length runs, some payloads.workflows,
        some payloads.runs⟩ =
      .ok (tableOf (rows.map SnapshotRow.toRecord) workflowsSchema).toPylist := by
  -- the clusters of the marker are the configured ones, named and distinct
  have hnames : ∀ stat ∈ stats, stat.name ≠ "" := by
    intro stat hstat
    have hmem : stat.name ∈ cfg.clusters.map Cluster.name :=
      hcollected.names ▸ List.mem_map_of_mem hstat
    obtain ⟨cluster, hcluster, hname⟩ := List.mem_map.mp hmem
    rw [← hname]
    exact hcfg.clusters.names_ne cluster hcluster
  have havailability : clusterAvailability py ⟨sidecar cfg now uuid stats rows.length runs,
      some payloads.workflows, some payloads.runs⟩ =
        .ok (stats.map fun stat => (stat.name, stat.ok)) := by
    unfold clusterAvailability
    rw [if_neg (by simp [sidecar, Json.isDict]), sidecar_clusters]
    dsimp only
    exact availabilityEntries_clusterEntries hnames (by
      rw [List.map_nil, List.nil_append, hcollected.names]
      exact hcfg.clusters.names_nodup)
  unfold currentSnapshotRows
  rw [hdecode, ok_bind, if_neg (by simp [sidecar, Json.isDict, Json.has]), havailability, ok_bind,
    pure_eq_ok, Except.ok.injEq, List.filter_eq_self]
  -- no row is filtered out: each came from a cluster that answered
  intro row hrow
  rw [toPylist_tableOf] at hrow
  obtain ⟨_, hrecord, rfl⟩ := List.mem_map.mp hrow
  obtain ⟨r, hr, rfl⟩ := List.mem_map.mp hrecord
  obtain ⟨stat, hstat, hok, hcluster⟩ := hcollected.available r hr
  have hcell : Record.get (Record.project workflowsSchema r.toRecord) "cluster" =
      .str stat.name := hcluster
  rw [hcell, isOneOf, List.contains_iff_mem, List.mem_map]
  refine ⟨(stat.name, stat.ok), ?_, rfl⟩
  rw [List.mem_filter]
  exact ⟨List.mem_map_of_mem hstat, hok⟩

/-! ## Whole cycles -/

/-- What the reference consumer makes of a store: one fresh publication with this sidecar and these
    payloads, about the configured clusters, with the row counts of the files, and with every
    snapshot row current. -/
structure AcceptedWhole (py : Platform Bytes) (cfg : Config) (store : ObjectStore Bytes)
    (metaJson : Json) (payloads : Payloads Bytes) : Prop where
  read : ∀ last, readStore py store cfg.destPrefix last none =
    .ok ⟨some ⟨metaJson, some payloads.workflows, some payloads.runs⟩, .fresh, none⟩
  clusters : ∃ entries, metaJson.get "clusters" = .arr entries ∧
    entries.map (fun entry => entry.get "name") = cfg.clusters.map fun c => .str c.name
  snapshot : ∃ table, parquetBytesToTable py (some payloads.workflows) workflowsSchema = .ok table ∧
    metaJson.get "workflows" = .int table.toPylist.length ∧
    (∀ row ∈ table.toPylist, Record.get row "observed_at" = metaJson.get "generated_at") ∧
    currentSnapshotRows py ⟨metaJson, some payloads.workflows, some payloads.runs⟩ =
      .ok table.toPylist
  ledger : ∃ table, parquetBytesToTable py (some payloads.runs) runsSchema = .ok table ∧
    metaJson.get "runs" = .int table.toPylist.length

theorem acceptedWhole_of_compute (hpq : ParquetFaithful py) (hjson : JsonFaithful py)
    {cfg : Config} (hcfg : cfg.Accepted) {now : Stamp} {uuid : UuidHex} {rows : List SnapshotRow}
    {stats : List ClusterStat} {stored : Table} {payloads : Payloads Bytes}
    (hcollected : Collected cfg.clusters now.text rows stats) {merged : List LedgerRow}
    (hmerge : Ledger.merge py (ledgerRows stored) rows now.text cfg.runRetentionDays = .ok merged)
    (h : compute py cfg now uuid rows stats stored = .ok payloads) (store : ObjectStore Bytes) :
    AcceptedWhole py cfg (writePayloads (objectKey cfg.destPrefix) store payloads)
      (sidecar cfg now uuid stats rows.length merged.length) payloads := by
  obtain ⟨merged', hmerge', hworkflows, hruns, hmeta, hone⟩ := decode_of_compute hpq hjson h
  rw [hmerge, Except.ok.injEq] at hmerge'
  subst hmerge'
  refine {
    read := readStore_writePayloads store hmeta hone
    clusters := ⟨_, rfl, ?_⟩
    snapshot := ⟨_, hworkflows, ?_, ?_, currentSnapshotRows_eq hcfg hcollected hworkflows⟩
    ledger := ⟨_, hruns, ?_⟩ }
  -- the names in the marker, in the order of the configuration
  · have hnames := congrArg (List.map Json.str) hcollected.names
    rw [List.map_map, List.map_map] at hnames
    rw [List.map_map]
    exact hnames
  · rw [toPylist_tableOf, List.length_map, List.length_map]
    rfl
  -- every snapshot row is observed at the time of the cycle
  · intro row hrow
    rw [toPylist_tableOf] at hrow
    obtain ⟨_, hrecord, rfl⟩ := List.mem_map.mp hrow
    obtain ⟨r, hr, rfl⟩ := List.mem_map.mp hrecord
    exact hcollected.observed r hr
  · rw [toPylist_tableOf, List.length_map, List.length_map]
    rfl

theorem accepted_of_runCycle {cfg : Config} {inputs : CycleInputs cfg}
    {store store' : ObjectStore Bytes} {metaJson : Json} {payloads : Payloads Bytes}
    (hrun : runCycle py cfg inputs store = (.published, store'))
    (h : AcceptedWhole py cfg store' metaJson payloads) :
    (runCycle py cfg inputs store).1 = .published ∧
      AcceptedWhole py cfg (runCycle py cfg inputs store).2 metaJson payloads := by
  rw [hrun]
  exact ⟨rfl, h⟩

/-- Every cycle of a loaded configuration in which a cluster answers with rows that fit passes its
    own sidecar check, and if its PUTs are served the consumer accepts what it wrote, whole. -/
theorem published_cycle_accepted (hpq : ParquetFaithful py) (hjson : JsonFaithful py)
    {environ : Config.Environ} {versionFile : String → Except Exc String} {cfg : Config}
    (hload : Config.load py environ versionFile = .ok cfg) (inputs : CycleInputs cfg)
    (store : ObjectStore Bytes) {rows : List SnapshotRow} {stats : List ClusterStat}
    {stored : Table} {boundary : String}
    (hcollect : fetchWorkflows py inputs.now.text inputs.answers.entries = .ok (rows, stats))
    (hok : stats.any ClusterStat.ok = true)
    (hfits : ∀ row ∈ rows, Record.Fits workflowsSchema row.toRecord)
    (hledger : readLedger py (getObject store inputs.getRuns
      (objectKey cfg.destPrefix "runs.parquet")) = .ok stored)
    (hcut : Ledger.cutoff py cfg.runRetentionDays inputs.now.text = .ok boundary) :
    ∃ merged payloads,
      Ledger.merge py (ledgerRows stored) rows inputs.now.text cfg.runRetentionDays = .ok merged ∧
      MetaSchema.validate py
        (sidecar cfg inputs.now inputs.uuid stats rows.length merged.length) = .ok () ∧
      compute py cfg inputs.now inputs.uuid rows stats stored = .ok payloads ∧
      (inputs.PutsServed → (runCycle py cfg inputs store).1 = .published ∧
        AcceptedWhole py cfg (runCycle py cfg inputs store).2
          (sidecar cfg inputs.now inputs.uuid stats rows.length merged.length) payloads) := by
  have hcfg := Config.load_accepted hload
  have hcollected := collected_of_fetch hcollect
  rw [inputs.answers.clusters_eq] at hcollected
  obtain ⟨data, _, hdecode⟩ := bind_eq_ok.mp hledger
  -- what the stored ledger holds was decoded, so it fits its schema
  have hstored := fits_of_decode hpq (Or.inr rfl) hdecode
  obtain ⟨payloads, hcompute⟩ : ∃ payloads,
      compute py cfg inputs.now inputs.uuid rows stats stored = .ok payloads :=
    compute_of_collected hpq hjson hcfg hcollected hfits hstored hcut
  obtain ⟨merged, hmerge, _, _, _, hone⟩ := decode_of_compute hpq hjson hcompute
  refine ⟨merged, payloads, hmerge, hone.valid, hcompute, fun hserved => ?_⟩
  have hprep : prepare py cfg inputs.now inputs.uuid inputs.answers (getObject store inputs.getRuns
      (objectKey cfg.destPrefix "runs.parquet")) = .ready payloads stats :=
    (prepare_eq_ready_iff py).mpr ⟨rows, stored, hcollect, hok, hledger, hcompute⟩
  have haccepted := acceptedWhole_of_compute hpq hjson hcfg hcollected hmerge hcompute store
  exact accepted_of_runCycle (runCycle_served hserved hprep) haccepted

theorem readLedger_empty : readLedger Reference.platform (getObject Reference.emptyStore .served
    (objectKey Reference.config.destPrefix "runs.parquet")) = .ok (tableOf [] runsSchema) := by
  unfold readLedger
  rw [downloadBytes_getObject, ok_bind]
  exact decode_none Reference.parquetFaithful (Or.inr rfl)

/-- A first cycle of the reference deployment. -/
theorem published_cycle_accepted_reference :
    ∃ merged payloads,
      Ledger.merge Reference.platform (ledgerRows (tableOf [] runsSchema))
        [Reference.row (Reference.instant 0).text] (Reference.instant 0).text 7 = .ok merged ∧
      MetaSchema.validate Reference.platform (sidecar Reference.config (Reference.instant 0)
        (Reference.uuid 'a') Reference.stats 1 merged.length) = .ok () ∧
      compute Reference.platform Reference.config (Reference.instant 0) (Reference.uuid 'a')
        [Reference.row (Reference.instant 0).text] Reference.stats (tableOf [] runsSchema) =
          .ok payloads ∧
      ((Reference.cycle 0 'a' .served).PutsServed →
        (runCycle Reference.platform Reference.config (Reference.cycle 0 'a' .served)
          Reference.emptyStore).1 = .published ∧
        AcceptedWhole Reference.platform Reference.config
          (runCycle Reference.platform Reference.config (Reference.cycle 0 'a' .served)
            Reference.emptyStore).2
          (sidecar Reference.config (Reference.instant 0) (Reference.uuid 'a') Reference.stats 1
            merged.length) payloads) :=
  published_cycle_accepted Reference.parquetFaithful Reference.jsonFaithful
    Reference.config_loaded (Reference.cycle 0 'a' .served) Reference.emptyStore
    (Reference.fetch_answers _) rfl (Reference.rows_fit _) readLedger_empty
    (Reference.cutoff_instant 0 (by decide))

end ArgoExporter.Main
