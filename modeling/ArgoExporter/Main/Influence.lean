/-
  ArgoExporter.Main.Influence

  What clusters can do to each other.  Two runs of an exporter that differ only
  in what some clusters answer show the same of every other cluster, as long
  as the same cycles of both have something to publish.
-/

import ArgoExporter.Consumer.ClusterView
import ArgoExporter.Main.ClusterOrder
import ArgoExporter.Main.LedgerHistory

namespace ArgoExporter.Main

open ArgoExporter.Py
open ArgoExporter.ParquetIo
open ArgoExporter.S3io
open ArgoExporter.Workflows
open ArgoExporter.Consumer
open ArgoExporter.Ledger (ofCluster observedOf storedOf)

variable {Bytes : Type} (py : Platform Bytes) {cfg : Config}

/-! ## Cycles that differ elsewhere -/

/-- The answers of one cluster in two cycles, the same if it is watched. -/
structure SameAnswer (watched : Set String) (answer answer' : Cluster × K8sApi.ListOutcome) :
    Prop where
  cluster : answer.1 = answer'.1
  outcome : answer.1.name ∈ watched → answer.2 = answer'.2

/-- The collection ends, some cluster answered, and the rows fit their columns. -/
def Publishable (inputs : CycleInputs cfg) : Prop :=
  ∃ rows stats, fetchWorkflows py inputs.now.text inputs.answers.entries = .ok (rows, stats) ∧
    stats.any ClusterStat.ok = true ∧ ∀ row ∈ rows, Record.Fits workflowsSchema row.toRecord

/-- Two cycles that differ only in the answers of clusters that are not watched.  Whether there is
    something to publish is the one thing these can decide for the others. -/
structure DiffersElsewhere (watched : Set String) (inputs inputs' : CycleInputs cfg) : Prop where
  now : inputs.now = inputs'.now
  uuid : inputs.uuid = inputs'.uuid
  answers : List.Forall₂ (SameAnswer watched) inputs.answers.entries inputs'.answers.entries
  getRuns : inputs.getRuns = inputs'.getRuns
  putWorkflows : inputs.putWorkflows = inputs'.putWorkflows
  putRuns : inputs.putRuns = inputs'.putRuns
  putMeta : inputs.putMeta = inputs'.putMeta
  publishable : Publishable py inputs ↔ Publishable py inputs'

/-- The entries of a cluster in the statistics. -/
def ownStats (cluster : String) (stats : List ClusterStat) : List ClusterStat :=
  stats.filter fun stat => stat.name = cluster

variable {py} {watched : Set String}

theorem ownStats_cons (cluster : String) (stat : ClusterStat) (stats : List ClusterStat) :
    ownStats cluster (stat :: stats) = ownStats cluster [stat] ++ ownStats cluster stats :=
  List.filter_append [stat] stats

/-! ## Collection -/

section Collection

variable {observedAt cluster : String} {answers answers' : List (Cluster × K8sApi.ListOutcome)}

/-- The parts of two collections that are about a watched cluster are the same. -/
theorem own_parts (h : List.Forall₂ (SameAnswer watched) answers answers')
    {parts parts' : List (List SnapshotRow × ClusterStat)}
    (hparts : Contributions py observedAt answers parts)
    (hparts' : Contributions py observedAt answers' parts') (hcluster : cluster ∈ watched) :
    observedOf cluster (parts.flatMap Prod.fst) = observedOf cluster (parts'.flatMap Prod.fst) ∧
      ownStats cluster (parts.map Prod.snd) = ownStats cluster (parts'.map Prod.snd) := by
  induction h generalizing parts parts' with
  | nil =>
      cases hparts
      cases hparts'
      exact ⟨rfl, rfl⟩
  | @cons answer answer' answers answers' hsame _ ih =>
      cases hparts with
      | @cons _ part _ parts hpart hrest =>
      cases hparts' with
      | @cons _ part' _ parts' hpart' hrest' =>
      obtain ⟨hrows, hstats⟩ := ih hrest hrest'
      have hhead : observedOf cluster part.1 = observedOf cluster part'.1 ∧
          ownStats cluster [part.2] = ownStats cluster [part'.2] := by
        by_cases hname : answer.1.name = cluster
        · have heq : answer = answer' :=
            Prod.ext hsame.cluster (hsame.outcome (hname ▸ hcluster))
          subst heq
          obtain ⟨hfst, hsnd⟩ := hpart.unique py observedAt hpart'
          rw [hfst, hsnd]
          exact ⟨rfl, rfl⟩
        -- the part of another cluster has no row and no entry of this one
        · have hname' : answer'.1.name ≠ cluster := hsame.cluster ▸ hname
          rw [observedOf_part hpart hname, observedOf_part hpart' hname']
          simp [ownStats, hpart.name, hpart'.name, hname, hname']
      constructor
      · rw [List.flatMap_cons, List.flatMap_cons, observedOf, observedOf, List.filter_append,
          List.filter_append]
        exact congrArg₂ (· ++ ·) hhead.1 hrows
      · rw [List.map_cons, List.map_cons, ownStats_cons, ownStats_cons cluster part'.2, hstats,
          hhead.2]

theorem own_collection (h : List.Forall₂ (SameAnswer watched) answers answers')
    {rows rows' : List SnapshotRow} {stats stats' : List ClusterStat}
    (hfetch : fetchWorkflows py observedAt answers = .ok (rows, stats))
    (hfetch' : fetchWorkflows py observedAt answers' = .ok (rows', stats'))
    (hcluster : cluster ∈ watched) :
    observedOf cluster rows = observedOf cluster rows' ∧
      ownStats cluster stats = ownStats cluster stats' := by
  obtain ⟨parts, hparts, rfl, rfl⟩ := contributions_of_fetch hfetch
  obtain ⟨parts', hparts', rfl, rfl⟩ := contributions_of_fetch hfetch'
  exact own_parts h hparts hparts' hcluster

end Collection

/-! ## Payloads -/

theorem isOneOf_iff_ofCluster (cluster : String) (row : SharedColumns) :
    isOneOf [cluster] row.cluster = ofCluster cluster row := by
  unfold isOneOf ofCluster
  cases row.cluster with
  | str name => simp
  | _ => rfl

/-- The records of a cluster in a snapshot file are its rows. -/
theorem ownRecords_snapshot (cluster : String) (rows : List SnapshotRow) :
    ownRecords cluster (tableOf (rows.map SnapshotRow.toRecord) workflowsSchema).toPylist =
      (observedOf cluster rows).map fun row => Record.project workflowsSchema row.toRecord := by
  rw [toPylist_tableOf, List.map_map, ownRecords, List.filter_map, observedOf]
  refine congrArg _ (List.filter_congr fun row _ => ?_)
  exact isOneOf_iff_ofCluster cluster row.shared

theorem ownRecords_ledger (cluster : String) (rows : List LedgerRow) :
    ownRecords cluster (tableOf (rows.map LedgerRow.toRecord) runsSchema).toPylist =
      (storedOf cluster rows).map fun row => Record.project runsSchema row.toRecord := by
  rw [toPylist_tableOf, List.map_map, ownRecords, List.filter_map, storedOf]
  refine congrArg _ (List.filter_congr fun row _ => ?_)
  exact isOneOf_iff_ofCluster cluster row.shared

theorem storedOf_ledgerRows (cluster : String) (table : Table) :
    storedOf cluster (ledgerRows table) =
      (ownRecords cluster table.toPylist).map LedgerRow.ofRecord := by
  rw [storedOf, ledgerRows, List.filter_map, ownRecords]
  refine congrArg _ (List.filter_congr fun record _ => ?_)
  exact (isOneOf_iff_ofCluster cluster (LedgerRow.ofRecord record).shared).symm

theorem ownEntries_sidecar (now : Stamp) (uuid : UuidHex) (stats : List ClusterStat)
    (workflows runs : Nat) (cluster : String) :
    ownEntries cluster (sidecar cfg now uuid stats workflows runs) =
      (ownStats cluster stats).map clusterEntry := by
  rw [ownEntries, sidecar_clusters, ownStats]
  dsimp only
  rw [List.filter_map]
  refine congrArg _ (List.filter_congr fun stat _ => ?_)
  show isOneOf [cluster] (.str stat.name) = decide (stat.name = cluster)
  simp [isOneOf]

section Payloads

variable {now : Stamp} {uuid : UuidHex} {rows rows' : List SnapshotRow}
  {stats stats' : List ClusterStat} {stored stored' : Table} {payloads payloads' : Payloads Bytes}

/-- The ledgers of a watched cluster are merges of the same rows. -/
theorem storedOf_merged (hne : "" ∉ watched)
    (hstored : ∀ cluster ∈ watched,
      ownRecords cluster stored.toPylist = ownRecords cluster stored'.toPylist)
    (hrows : ∀ cluster ∈ watched, observedOf cluster rows = observedOf cluster rows')
    {generatedAt : String} {retentionDays : Int} {merged merged' : List LedgerRow}
    (h : Ledger.merge py (ledgerRows stored) rows generatedAt retentionDays = .ok merged)
    (h' : Ledger.merge py (ledgerRows stored') rows' generatedAt retentionDays = .ok merged') :
    ∀ cluster ∈ watched, storedOf cluster merged = storedOf cluster merged' := by
  intro cluster hcluster
  have hname : cluster ≠ "" := fun heq => hne (heq ▸ hcluster)
  have hlocal := Ledger.storedOf_merge py hname (ledgerRows stored) rows generatedAt retentionDays
  have hlocal' := Ledger.storedOf_merge py hname (ledgerRows stored') rows' generatedAt
    retentionDays
  rw [storedOf_ledgerRows, hstored cluster hcluster, hrows cluster hcluster,
    ← storedOf_ledgerRows, ← hlocal', h, h'] at hlocal
  exact Except.ok.inj hlocal

/-- What two such cycles compute shows the same of the watched clusters. -/
theorem alike_payloads (hpq : ParquetFaithful py) (hjson : JsonFaithful py) (hne : "" ∉ watched)
    (hstored : ∀ cluster ∈ watched,
      ownRecords cluster stored.toPylist = ownRecords cluster stored'.toPylist)
    (hrows : ∀ cluster ∈ watched, observedOf cluster rows = observedOf cluster rows')
    (hstats : ∀ cluster ∈ watched, ownStats cluster stats = ownStats cluster stats')
    (h : compute py cfg now uuid rows stats stored = .ok payloads)
    (h' : compute py cfg now uuid rows' stats' stored' = .ok payloads') :
    AlikeObjects py watched "workflows.parquet" payloads.workflows payloads'.workflows ∧
      AlikeObjects py watched "runs.parquet" payloads.runs payloads'.runs ∧
      AlikeObjects py watched "meta.json" payloads.meta payloads'.meta := by
  obtain ⟨merged, hmerge, hworkflows, hruns, hvalid, hmeta⟩ := compute_eq_ok py h
  obtain ⟨merged', hmerge', hworkflows', hruns', hvalid', hmeta'⟩ := compute_eq_ok py h'
  have hmerged := storedOf_merged hne hstored hrows hmerge hmerge'
  refine ⟨⟨by simp, fun _ => ?_, by simp⟩, ⟨by simp, by simp, fun _ => ?_⟩,
    ⟨fun _ => ?_, by simp, by simp⟩⟩
  · refine ⟨?_, _, _, decode_encode hpq (Or.inl rfl) hworkflows,
      decode_encode hpq (Or.inl rfl) hworkflows', fun cluster hcluster => ?_⟩
    · rw [readGenerationId_encode hpq (Or.inl rfl) hworkflows,
        readGenerationId_encode hpq (Or.inl rfl) hworkflows']
    · rw [ownRecords_snapshot, ownRecords_snapshot, hrows cluster hcluster]
  · refine ⟨?_, _, _, decode_encode hpq (Or.inr rfl) hruns,
      decode_encode hpq (Or.inr rfl) hruns', fun cluster hcluster => ?_⟩
    · rw [readGenerationId_encode hpq (Or.inr rfl) hruns,
        readGenerationId_encode hpq (Or.inr rfl) hruns']
    · rw [ownRecords_ledger, ownRecords_ledger, hmerged cluster hcluster]
  · refine ⟨_, _,
      hjson.loads_dumps _ _ (distinctKeys_sidecar cfg now uuid stats rows.length _) hmeta,
      hjson.loads_dumps _ _ (distinctKeys_sidecar cfg now uuid stats' rows'.length _) hmeta',
      hvalid, hvalid', rfl, rfl, rfl, fun cluster hcluster => ?_⟩
    rw [ownEntries_sidecar, ownEntries_sidecar, hstats cluster hcluster]

end Payloads

/-! ## One cycle each -/

/-- A cycle that gets to its publish phase had something to publish. -/
theorem publishable_of_ready (hpq : ParquetFaithful py) {inputs : CycleInputs cfg}
    {getRuns : Except Exc Bytes} {payloads : Payloads Bytes} {stats : List ClusterStat}
    (h : prepare py cfg inputs.now inputs.uuid inputs.answers getRuns = .ready payloads stats) :
    Publishable py inputs := by
  obtain ⟨rows, stored, hfetch, hany, _, hcompute⟩ := (prepare_eq_ready_iff py).mp h
  obtain ⟨_, _, hworkflows, _⟩ := compute_eq_ok py hcompute
  refine ⟨rows, stats, hfetch, hany, fun row hrow => ?_⟩
  exact (encode_ok_iff hpq (Or.inl rfl) _).mp ⟨_, hworkflows⟩ _ (List.mem_map_of_mem hrow)

/-- Where the one cycle publishes, so does the other, and what it publishes is alike. -/
theorem ready_alike (hpq : ParquetFaithful py) (hjson : JsonFaithful py) (hcfg : cfg.Accepted)
    (hne : "" ∉ watched) {store store' : ObjectStore Bytes}
    (hstores : AlikeStores py watched cfg.destPrefix store store') {inputs inputs' : CycleInputs cfg}
    (hinputs : DiffersElsewhere py watched inputs inputs') {payloads : Payloads Bytes}
    {stats : List ClusterStat}
    (h : prepare py cfg inputs.now inputs.uuid inputs.answers
      (getObject store inputs.getRuns (objectKey cfg.destPrefix "runs.parquet")) =
        .ready payloads stats) :
    ∃ payloads' stats', prepare py cfg inputs'.now inputs'.uuid inputs'.answers
        (getObject store' inputs'.getRuns (objectKey cfg.destPrefix "runs.parquet")) =
          .ready payloads' stats' ∧
      AlikeObjects py watched "workflows.parquet" payloads.workflows payloads'.workflows ∧
      AlikeObjects py watched "runs.parquet" payloads.runs payloads'.runs ∧
      AlikeObjects py watched "meta.json" payloads.meta payloads'.meta := by
  obtain ⟨rows', stats', hfetch', hany', hfits'⟩ :=
    hinputs.publishable.mp (publishable_of_ready hpq h)
  obtain ⟨rows, stored, hfetch, _, hledger, hcompute⟩ := (prepare_eq_ready_iff py).mp h
  obtain ⟨data, hdownload, hdecode⟩ := bind_eq_ok.mp hledger
  obtain ⟨hserved, rfl⟩ := downloadBytes_eq_ok hdownload
  -- the other ledger is readable, with the same runs of the watched clusters
  have hruns : Akin (AlikeFiles py watched runsSchema)
      (store (objectKey cfg.destPrefix "runs.parquet"))
      (store' (objectKey cfg.destPrefix "runs.parquet")) :=
    (hstores "runs.parquet").imp fun _ _ halike => halike.runs rfl
  obtain ⟨stored', hdecode', hstored⟩ := hruns.decode hdecode
  have hledger' : readLedger py (getObject store' inputs'.getRuns
      (objectKey cfg.destPrefix "runs.parquet")) = .ok stored' := by
    rw [← hinputs.getRuns, hserved, readLedger, downloadBytes_getObject]
    exact hdecode'
  obtain ⟨_, hmerge, _⟩ := compute_eq_ok py hcompute
  obtain ⟨boundary, hcut, _⟩ := Ledger.merge_eq_ok py hmerge
  have hcollected := collected_of_fetch hfetch'
  rw [inputs'.answers.clusters_eq] at hcollected
  rw [hinputs.now] at hcut
  obtain ⟨payloads', hcompute'⟩ : ∃ payloads', compute py cfg inputs'.now inputs'.uuid rows' stats'
      stored' = .ok payloads' :=
    compute_of_collected hpq hjson hcfg hcollected hfits'
      (fits_of_decode hpq (Or.inr rfl) hdecode') hcut
  refine ⟨payloads', stats', (prepare_eq_ready_iff py).mpr
    ⟨rows', stored', hfetch', hany', hledger', hcompute'⟩, ?_⟩
  rw [hinputs.now] at hfetch
  rw [hinputs.now, hinputs.uuid] at hcompute
  exact alike_payloads hpq hjson hne hstored
    (fun cluster hcluster => (own_collection hinputs.answers hfetch hfetch' hcluster).1)
    (fun cluster hcluster => (own_collection hinputs.answers hfetch hfetch' hcluster).2)
    hcompute hcompute'

/-- Two uploads of one name that end the same way. -/
structure AlikeUploads (py : Platform Bytes) (watched : Set String) (upload upload' : Upload Bytes) :
    Prop where
  name : upload.name = upload'.name
  outcome : upload.outcome = upload'.outcome
  data : AlikeObjects py watched upload.name upload.data upload'.data

theorem alikeStores_upload {pfx : String} {store store' : ObjectStore Bytes}
    (hstores : AlikeStores py watched pfx store store') {upload upload' : Upload Bytes}
    (h : AlikeUploads py watched upload upload') :
    AlikeStores py watched pfx
      (uploadBytes store upload.outcome (objectKey pfx upload.name) upload.data).2
      (uploadBytes store' upload'.outcome (objectKey pfx upload'.name) upload'.data).2 := by
  intro name
  rw [← h.name, ← h.outcome]
  by_cases hname : name = upload.name
  · subst hname
    rw [Consumer.key, uploadBytes_self, uploadBytes_self]
    split
    · exact Or.inr ⟨_, _, rfl, rfl, h.data⟩
    · exact hstores upload.name
  · have hkey : Consumer.key pfx name ≠ objectKey pfx upload.name :=
      fun heq => hname (objectKey_injective pfx heq)
    rw [uploadBytes_ne _ _ _ hkey, uploadBytes_ne _ _ _ hkey]
    exact hstores name

theorem alikeStores_publish {pfx : String} {todo todo' : List (Upload Bytes)}
    (h : List.Forall₂ (AlikeUploads py watched) todo todo') {store store' : ObjectStore Bytes}
    (hstores : AlikeStores py watched pfx store store') (published published' : List String) :
    AlikeStores py watched pfx (publish (objectKey pfx) store published todo).2
      (publish (objectKey pfx) store' published' todo').2 := by
  induction h generalizing store store' published published' with
  | nil => exact hstores
  | cons hupload _ ih =>
      have hnext := alikeStores_upload hstores hupload
      rw [publish_cons, publish_cons, ← hupload.outcome]
      rw [← hupload.outcome] at hnext
      split
      · exact ih hnext _ _
      · exact hnext

theorem DiffersElsewhere.symm {inputs inputs' : CycleInputs cfg}
    (h : DiffersElsewhere py watched inputs inputs') :
    DiffersElsewhere py watched inputs' inputs where
  now := h.now.symm
  uuid := h.uuid.symm
  answers := h.answers.flip.imp fun _ _ hsame =>
    ⟨hsame.cluster.symm, fun hwatched => (hsame.outcome (hsame.cluster ▸ hwatched)).symm⟩
  getRuns := h.getRuns.symm
  putWorkflows := h.putWorkflows.symm
  putRuns := h.putRuns.symm
  putMeta := h.putMeta.symm
  publishable := h.publishable.symm

/-- A cycle that does not get to its publish phase leaves the store alone. -/
theorem runCycle_store_of_not_ready {inputs : CycleInputs cfg} {store : ObjectStore Bytes}
    (h : ∀ payloads stats, prepare py cfg inputs.now inputs.uuid inputs.answers
      (getObject store inputs.getRuns (objectKey cfg.destPrefix "runs.parquet")) ≠
        .ready payloads stats) : (runCycle py cfg inputs store).2 = store := by
  unfold runCycle
  dsimp only
  cases hprep : prepare py cfg inputs.now inputs.uuid inputs.answers
      (getObject store inputs.getRuns (objectKey cfg.destPrefix "runs.parquet")) with
  | skip stats => rfl
  | fail e phase stats => rfl
  | ready payloads stats => exact absurd hprep (h payloads stats)

theorem runCycle_store_of_ready {inputs : CycleInputs cfg} {store : ObjectStore Bytes}
    {payloads : Payloads Bytes} {stats : List ClusterStat}
    (h : prepare py cfg inputs.now inputs.uuid inputs.answers
      (getObject store inputs.getRuns (objectKey cfg.destPrefix "runs.parquet")) =
        .ready payloads stats) :
    (runCycle py cfg inputs store).2 =
      (publish (objectKey cfg.destPrefix) store [] (uploads inputs payloads)).2 := by
  simp only [runCycle, h, afterPublish_store]

/-- Whatever ends the two cycles, the stores they leave agree on the watched clusters. -/
theorem alikeStores_runCycle (hpq : ParquetFaithful py) (hjson : JsonFaithful py)
    (hcfg : cfg.Accepted) (hne : "" ∉ watched) {store store' : ObjectStore Bytes}
    (hstores : AlikeStores py watched cfg.destPrefix store store') {inputs inputs' : CycleInputs cfg}
    (hinputs : DiffersElsewhere py watched inputs inputs') :
    AlikeStores py watched cfg.destPrefix (runCycle py cfg inputs store).2
      (runCycle py cfg inputs' store').2 := by
  by_cases hready : ∃ payloads stats, prepare py cfg inputs.now inputs.uuid inputs.answers
      (getObject store inputs.getRuns (objectKey cfg.destPrefix "runs.parquet")) =
        .ready payloads stats
  · obtain ⟨payloads, stats, hprep⟩ := hready
    obtain ⟨payloads', stats', hprep', hworkflows, hruns, hmeta⟩ :=
      ready_alike hpq hjson hcfg hne hstores hinputs hprep
    rw [runCycle_store_of_ready hprep, runCycle_store_of_ready hprep']
    refine alikeStores_publish ?_ hstores [] []
    exact .cons ⟨rfl, hinputs.putWorkflows, hworkflows⟩
      (.cons ⟨rfl, hinputs.putRuns, hruns⟩ (.cons ⟨rfl, hinputs.putMeta, hmeta⟩ .nil))
  -- the other one does not publish either, or this one would
  · have hother : ∀ payloads' stats', prepare py cfg inputs'.now inputs'.uuid inputs'.answers
        (getObject store' inputs'.getRuns (objectKey cfg.destPrefix "runs.parquet")) ≠
          .ready payloads' stats' := by
      intro payloads' stats' hprep'
      obtain ⟨payloads, stats, hprep, _⟩ :=
        ready_alike hpq hjson hcfg hne hstores.symm hinputs.symm hprep'
      exact hready ⟨payloads, stats, hprep⟩
    rw [runCycle_store_of_not_ready fun payloads stats hprep => hready ⟨payloads, stats, hprep⟩,
      runCycle_store_of_not_ready hother]
    exact hstores

/-! ## Whole runs -/

theorem alikeStores_exporterRun (hpq : ParquetFaithful py) (hjson : JsonFaithful py)
    (hcfg : cfg.Accepted) (hne : "" ∉ watched) (store : ObjectStore Bytes)
    {cycles cycles' : List (CycleInputs cfg)}
    (h : List.Forall₂ (DiffersElsewhere py watched) cycles cycles') :
    AlikeStores py watched cfg.destPrefix (exporterRun py store cycles).store
      (exporterRun py store cycles').store :=
  List.rel_foldl
    (P := fun (progress progress' : Progress Bytes) =>
      AlikeStores py watched cfg.destPrefix progress.store progress'.store)
    (fun _ _ hstores _ _ hinputs => alikeStores_runCycle hpq hjson hcfg hne hstores hinputs)
    (AlikeStores.refl cfg.destPrefix store) h

/-- Clusters do not interfere.  From any store, two runs that differ only in what some clusters
    answer, with the same cycles having something to publish, leave stores in which a consumer sees
    the same of every other cluster: the same answer with the same availability, current rows and
    history, whatever it read before and however it checks freshness. -/
theorem clusters_do_not_interfere (hpq : ParquetFaithful py) (hjson : JsonFaithful py)
    (hcfg : cfg.Accepted) (hne : "" ∉ watched) (store : ObjectStore Bytes)
    {cycles cycles' : List (CycleInputs cfg)}
    (h : List.Forall₂ (DiffersElsewhere py watched) cycles cycles') :
    ∀ cluster ∈ watched, ∀ last freshness,
      clusterView py (exporterRun py store cycles).store cfg.destPrefix cluster last freshness =
        clusterView py (exporterRun py store cycles').store cfg.destPrefix cluster last freshness :=
  fun _ hcluster last freshness =>
    clusterView_eq (alikeStores_exporterRun hpq hjson hcfg hne store h) hcluster last freshness

/-! ## A cluster that answers in one run only -/

/-- The cycle with an answer of the second cluster, which lists the uid of the first one. -/
def betaAnswers (inputs : CycleInputs Reference.config) : CycleInputs Reference.config :=
  let items := [Reference.workflow "u-1" Reference.succeeded]
  { inputs with
    answers := ⟨[(Reference.alpha, .ok (items, true)), (Reference.beta, .ok (items, true))], rfl⟩ }

theorem publishable_cycle (n : Nat) (hn : n < 1000000) (c : Char)
    (hc : MetaSchema.hexClass c = true) (putMeta : PutOutcome) :
    Publishable Reference.platform (Reference.cycle n c putMeta hn hc) :=
  ⟨_, _, Reference.fetch_answers _, rfl, Reference.rows_fit _⟩

theorem publishable_betaAnswers (n : Nat) (hn : n < 1000000) (c : Char)
    (hc : MetaSchema.hexClass c = true) (putMeta : PutOutcome) :
    Publishable Reference.platform (betaAnswers (Reference.cycle n c putMeta hn hc)) := by
  let time := (Reference.instant n hn).text
  refine ⟨[Reference.row time, ⟨Ledger.betaRow, .str time⟩], [⟨"alpha", true, 1⟩, ⟨"beta", true, 1⟩],
    rfl, rfl, ?_⟩
  have hfits := Reference.row_fits time
  rw [fits_snapshot_iff] at hfits
  refine List.forall_mem_cons.mpr ⟨Reference.row_fits time, List.forall_mem_singleton.mpr ?_⟩
  rw [fits_snapshot_iff]
  exact ⟨{ hfits.1 with cluster := Or.inr ⟨"beta", rfl⟩ }, hfits.2⟩

/-- A published cycle and one that stops before its sidecar, with the second cluster answering. -/
theorem clusters_do_not_interfere_beta :
    let cycles := [Reference.cycle 0 'a' .served,
      Reference.cycle 61 'b' (.failed ⟨.clientError "InternalError", "put"⟩ false)]
    ∀ cluster ∈ ({"alpha"} : Set String), ∀ last freshness,
      clusterView Reference.platform (exporterRun Reference.platform Reference.emptyStore cycles).store
          Reference.config.destPrefix cluster last freshness =
        clusterView Reference.platform
          (exporterRun Reference.platform Reference.emptyStore (cycles.map betaAnswers)).store
          Reference.config.destPrefix cluster last freshness := by
  have hanswers : ∀ inputs : CycleInputs Reference.config,
      inputs.answers = Reference.answers [Reference.workflow "u-1" Reference.succeeded] →
      List.Forall₂ (SameAnswer {"alpha"}) inputs.answers.entries
        (betaAnswers inputs).answers.entries := by
    intro inputs hinputs
    rw [hinputs]
    exact .cons ⟨rfl, fun _ => rfl⟩ (.cons ⟨rfl, fun hbeta => absurd hbeta (by decide)⟩ .nil)
  refine clusters_do_not_interfere Reference.parquetFaithful Reference.jsonFaithful
    (Config.load_accepted Reference.config_loaded) (by decide) Reference.emptyStore ?_
  exact .cons ⟨rfl, rfl, hanswers _ rfl, rfl, rfl, rfl, rfl,
      iff_of_true (publishable_cycle _ _ _ _ _) (publishable_betaAnswers _ _ _ _ _)⟩
    (.cons ⟨rfl, rfl, hanswers _ rfl, rfl, rfl, rfl, rfl,
      iff_of_true (publishable_cycle _ _ _ _ _) (publishable_betaAnswers _ _ _ _ _)⟩ .nil)

end ArgoExporter.Main
