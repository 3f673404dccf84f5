/-
  ArgoExporter.Main.ClusterOrder

  A cycle over a permuted cluster list publishes the same ledger and a
  permutation of the same snapshot: each cluster's rows stay in their order,
  and a merge reads its observations cluster by cluster.
-/

import ArgoExporter.Config.Reordering
import ArgoExporter.Ledger.Locality
import ArgoExporter.Main.Acceptance

namespace ArgoExporter.Main

open ArgoExporter.Py
open ArgoExporter.ParquetIo
open ArgoExporter.Workflows
open ArgoExporter.Ledger (DistinctRuns observedOf lastObservation)

variable {Bytes : Type} {py : Platform Bytes}

/-- The outcomes of a cycle in which the listing of a cluster does not depend on the others. -/
def Answers.ofListing (listing : Cluster → K8sApi.ListOutcome) (clusters : List Cluster) :
    Answers clusters where
  entries := clusters.map fun cluster => (cluster, listing cluster)
  clusters_eq := by
    rw [List.map_map]
    exact List.map_id clusters

/-- Two publications of one generation with the same ledger file and, up to their order, the same
    snapshot rows. -/
structure SameRows (py : Platform Bytes) (payloads payloads' : Payloads Bytes) : Prop where
  runs : payloads'.runs = payloads.runs
  workflows : ∃ table table',
    parquetBytesToTable py (some payloads.workflows) workflowsSchema = .ok table ∧
    parquetBytesToTable py (some payloads'.workflows) workflowsSchema = .ok table' ∧
    (snapshotRows table').Perm (snapshotRows table)

/-! ## Collection -/

/-- Concatenating parts of which at most one is not empty does not depend on their order. -/
theorem flatMap_eq_of_perm {α β : Type} {f : α → List β} {l l' : List α} (hperm : l'.Perm l)
    (h : l.Pairwise fun a b => f a = [] ∨ f b = []) : l'.flatMap f = l.flatMap f := by
  induction hperm with
  | nil => rfl
  | cons a _ ih =>
      rw [List.pairwise_cons] at h
      rw [List.flatMap_cons, List.flatMap_cons, ih h.2]
  | swap a b l =>
      rw [List.pairwise_cons] at h
      simp only [List.flatMap_cons]
      rcases h.1 b List.mem_cons_self with ha | hb
      · rw [ha]
        simp
      · rw [hb]
        simp
  | trans _ hright ihleft ihright =>
      have hmiddle := hright.pairwise_iff (R := fun a b => f a = [] ∨ f b = []) fun h => h.symm
      rw [ihleft (hmiddle.mpr h), ihright h]

section Collection

variable {observedAt : String} {answers answers' : List (Cluster × K8sApi.ListOutcome)}

/-- The rows of one cluster are the rows of the part that names it. -/
theorem observedOf_part {answer : Cluster × K8sApi.ListOutcome} {rows : List SnapshotRow}
    {stat : ClusterStat} (h : Contribution py observedAt answer rows stat) {cluster : String}
    (hne : answer.1.name ≠ cluster) : observedOf cluster rows = [] := by
  rw [observedOf, List.filter_eq_nil_iff]
  intro row hrow
  obtain ⟨wf, hwf⟩ := h.toRow row hrow
  rw [Ledger.ofCluster, (toRow_stamps hwf).1]
  simpa using hne

/-- Collecting the clusters in another order permutes the rows and keeps those of each cluster in
    their order. -/
theorem fetchWorkflows_perm {rows : List SnapshotRow} {stats : List ClusterStat}
    (h : fetchWorkflows py observedAt answers = .ok (rows, stats))
    (hnames : (answers.map fun a => a.1.name).Nodup) (hperm : answers'.Perm answers) :
    ∃ rows' stats', fetchWorkflows py observedAt answers' = .ok (rows', stats') ∧
      rows'.Perm rows ∧ stats'.Perm stats ∧
      ∀ cluster, observedOf cluster rows' = observedOf cluster rows := by
  have hhandled : ∀ a ∈ answers', Handled a.2 :=
    fun a ha => handled_of_foldlM h a (hperm.mem_iff.mp ha)
  obtain ⟨parts, hparts, rfl, rfl⟩ := contributions_of_fetch h
  obtain ⟨parts', hparts', hfetch'⟩ := fetchWorkflows_eq_ok py observedAt answers' hhandled
  have hunique : Relator.RightUnique
      fun (answer : Cluster × K8sApi.ListOutcome) (part : List SnapshotRow × ClusterStat) =>
        Contribution py observedAt answer part.1 part.2 := by
    intro answer part part' hpart hpart'
    obtain ⟨hrows, hstat⟩ := hpart.unique py observedAt hpart'
    exact Prod.ext hrows hstat
  have hpartsPerm : parts'.Perm parts := List.rel_perm_imp hunique hparts' hparts hperm
  refine ⟨_, _, hfetch', hpartsPerm.flatMap_right _, hpartsPerm.map _, fun cluster => ?_⟩
  unfold observedOf
  rw [List.filter_flatMap, List.filter_flatMap]
  apply flatMap_eq_of_perm hpartsPerm
  -- two clusters have two names, so one of their parts has no row of `cluster`
  clear h hperm hhandled hparts' hfetch' hpartsPerm
  induction hparts with
  | nil => exact List.Pairwise.nil
  | @cons answer part answers parts hpart hrest ih =>
      rw [List.map_cons, List.nodup_cons] at hnames
      refine List.pairwise_cons.mpr ⟨fun other hother => ?_, ih hnames.2⟩
      obtain ⟨i, hi⟩ := List.mem_iff_getElem?.mp hother
      rcases Contributions.getElem? py observedAt hrest i with ⟨_, hnone⟩ | ⟨a, p, ha, hp, hc⟩
      · rw [hi] at hnone
        exact absurd hnone (by simp)
      · rw [hi, Option.some.injEq] at hp
        subst hp
        by_cases hname : answer.1.name = cluster
        · right
          apply observedOf_part hc
          rintro rfl
          apply hnames.1
          rw [hname]
          exact List.mem_map_of_mem (f := fun a => a.1.name) (List.mem_of_getElem? ha)
        · exact Or.inl (observedOf_part hpart hname)

end Collection

/-! ## Publication -/

/-- Observations that agree on every cluster agree on the last one of every run. -/
theorem lastObservation_of_observedOf {rows rows' : List SnapshotRow} (hperm : rows'.Perm rows)
    (hnamed : ∀ row ∈ rows, (Ledger.identity row.shared).1 ≠ "")
    (hclusters : ∀ cluster, observedOf cluster rows' = observedOf cluster rows)
    (key : Ledger.Identity) : lastObservation rows' key = lastObservation rows key := by
  by_cases hkey : key.1 = ""
  · have hnone : ∀ row ∈ rows, row.shared.uid.truthy = true →
        Ledger.identity row.shared ≠ key := by
      rintro row hrow _ rfl
      exact hnamed row hrow hkey
    rw [Ledger.lastObservation_eq_none_iff.mpr hnone,
      Ledger.lastObservation_eq_none_iff.mpr fun row hrow => hnone row (hperm.mem_iff.mp hrow)]
  · have hrows := Ledger.lastObservation_observedOf hkey rows key
    have hrows' := Ledger.lastObservation_observedOf hkey rows' key
    rw [if_pos rfl] at hrows hrows'
    rw [← hrows, ← hrows', hclusters]

section Cycle

variable {cfg : Config} {clusters : List Cluster} {listing : Cluster → K8sApi.ListOutcome}
  {now : Stamp} {uuid : UuidHex} {getRuns : Except Exc Bytes} {payloads : Payloads Bytes}
  {rows rows' : List SnapshotRow} {stats stats' : List ClusterStat} {stored : Table}

/-- The rows of an accepted configuration name their cluster. -/
theorem named_of_collected (hcfg : cfg.Accepted)
    (hcollected : Collected cfg.clusters now.text rows stats) :
    ∀ row ∈ rows, (Ledger.identity row.shared).1 ≠ "" := by
  intro row hrow
  obtain ⟨stat, hstat, _, hcluster⟩ := hcollected.available row hrow
  have hmem : stat.name ∈ cfg.clusters.map Cluster.name :=
    hcollected.names ▸ List.mem_map_of_mem hstat
  obtain ⟨cluster, hmem, hname⟩ := List.mem_map.mp hmem
  show row.shared.cluster.orEmpty ≠ ""
  rw [hcluster, Json.orEmpty_str, ← hname]
  exact hcfg.clusters.names_ne cluster hmem

/-- The compute phase on permuted rows with the same last observations. -/
theorem compute_perm (hpq : ParquetFaithful py) (hjson : JsonFaithful py)
    (hcfg' : Config.Accepted { cfg with clusters := clusters })
    (hcollected' : Collected clusters now.text rows' stats') (hrows : rows'.Perm rows)
    (hlast : ∀ key, lastObservation rows' key = lastObservation rows key)
    (hstored : ∀ row ∈ stored.toPylist, Record.Fits runsSchema row)
    (h : compute py cfg now uuid rows stats stored = .ok payloads) :
    ∃ payloads', compute py { cfg with clusters := clusters } now uuid rows' stats' stored =
      .ok payloads' ∧ SameRows py payloads payloads' := by
  obtain ⟨merged, hmerge, hworkflows, hruns, _, _⟩ := compute_eq_ok py h
  -- the merge sees the rows only through the last observation of each run
  have hmerge' : Ledger.merge py (ledgerRows stored) rows' now.text cfg.runRetentionDays =
      .ok merged := by
    rw [Ledger.merge_congr py (fun _ => rfl) hlast]
    exact hmerge
  obtain ⟨boundary, hcut, _⟩ := Ledger.merge_eq_ok py hmerge
  have hfits : ∀ row ∈ rows', Record.Fits workflowsSchema row.toRecord := fun row hrow =>
    (encode_ok_iff hpq (Or.inl rfl) _).mp ⟨_, hworkflows⟩ _
      (List.mem_map_of_mem (hrows.mem_iff.mp hrow))
  obtain ⟨payloads', h'⟩ : ∃ payloads', compute py { cfg with clusters := clusters } now uuid
      rows' stats' stored = .ok payloads' :=
    compute_of_collected hpq hjson hcfg' hcollected' hfits hstored hcut
  refine ⟨payloads', h', ?_⟩
  obtain ⟨merged', hmerged', hworkflows', hruns', _, _⟩ := compute_eq_ok py h'
  -- the two ledgers are one, and so are their bytes
  have heq : merged' = merged := Except.ok.inj (hmerged'.symm.trans hmerge')
  rw [heq] at hruns'
  refine ⟨Except.ok.inj (hruns'.symm.trans hruns), _, _,
    decode_encode hpq (Or.inl rfl) hworkflows, decode_encode hpq (Or.inl rfl) hworkflows', ?_⟩
  rw [snapshotRows_tableOf, snapshotRows_tableOf]
  exact hrows

/-- A cycle over a permutation of its clusters publishes the same ledger file and the same snapshot
    rows, up to their order. -/
theorem prepare_perm (hpq : ParquetFaithful py) (hjson : JsonFaithful py) (hcfg : cfg.Accepted)
    (hcfg' : Config.Accepted { cfg with clusters := clusters }) (hperm : clusters.Perm cfg.clusters)
    (h : prepare py cfg now uuid (.ofListing listing cfg.clusters) getRuns =
      .ready payloads stats) :
    ∃ payloads' stats', prepare py { cfg with clusters := clusters } now uuid
        (.ofListing listing clusters) getRuns = .ready payloads' stats' ∧
      SameRows py payloads payloads' := by
  obtain ⟨rows, stored, hfetch, hany, hread, hcompute⟩ := (prepare_eq_ready_iff py).mp h
  have hcollected := collected_of_fetch hfetch
  rw [(Answers.ofListing listing cfg.clusters).clusters_eq] at hcollected
  have hnames : ((Answers.ofListing listing cfg.clusters).entries.map fun a => a.1.name).Nodup := by
    have hclusters := hcfg.clusters.names_nodup
    rw [← (Answers.ofListing listing cfg.clusters).clusters_eq, List.map_map] at hclusters
    exact hclusters
  have hentries : (Answers.ofListing listing clusters).entries.Perm
      (Answers.ofListing listing cfg.clusters).entries := hperm.map _
  obtain ⟨rows', stats', hfetch', hrows, hstats, hmine⟩ :=
    fetchWorkflows_perm hfetch hnames hentries
  have hcollected' := collected_of_fetch hfetch'
  rw [(Answers.ofListing listing clusters).clusters_eq] at hcollected'
  -- a run is observed by one cluster only, so its last observation stays
  have hlast := lastObservation_of_observedOf hrows (named_of_collected hcfg hcollected) hmine
  have hstored : ∀ row ∈ stored.toPylist, Record.Fits runsSchema row := by
    obtain ⟨data, _, hdecode⟩ := bind_eq_ok.mp hread
    exact fits_of_decode hpq (Or.inr rfl) hdecode
  obtain ⟨payloads', hcompute', hsame⟩ : ∃ payloads', compute py
      { cfg with clusters := clusters } now uuid rows' stats' stored = .ok payloads' ∧
        SameRows py payloads payloads' :=
    compute_perm hpq hjson hcfg' hcollected' hrows hlast hstored hcompute
  -- some cluster answered in the one order, hence in the other
  have hany' : stats'.any ClusterStat.ok = true := by
    rw [List.any_eq_true] at hany ⊢
    obtain ⟨stat, hstat, hok⟩ := hany
    exact ⟨stat, hstats.mem_iff.mpr hstat, hok⟩
  exact ⟨payloads', stats', (prepare_eq_ready_iff py).mpr
    ⟨rows', stored, hfetch', hany', hread, hcompute'⟩, hsame⟩

end Cycle

/-- Neither the ledger nor the observations of a merge have an order that matters, and neither has
    `CLUSTERS_JSON`: with its entries permuted, a cycle that meets the same listings publishes the
    same ledger file and the same snapshot rows. -/
theorem order_does_not_matter (hpq : ParquetFaithful py) (hjson : JsonFaithful py) :
    (∀ existing existing' observed observed' generatedAt retentionDays,
      DistinctRuns (existing.map LedgerRow.shared) →
      DistinctRuns (observed.map SnapshotRow.shared) →
      List.Perm existing' existing → List.Perm observed' observed →
        Ledger.merge py existing' observed' generatedAt retentionDays =
          Ledger.merge py existing observed generatedAt retentionDays) ∧
      ∀ environ environ' versionFile cfg, Config.load py environ versionFile = .ok cfg →
        Config.ReordersClusters py environ environ' →
        ∃ cfg', Config.load py environ' versionFile = .ok cfg' ∧
          ∀ listing now uuid getRuns payloads stats,
            prepare py cfg now uuid (.ofListing listing cfg.clusters) getRuns =
              .ready payloads stats →
            ∃ payloads' stats',
              prepare py cfg' now uuid (.ofListing listing cfg'.clusters) getRuns =
                .ready payloads' stats' ∧ SameRows py payloads payloads' := by
  constructor
  · intro existing existing' observed observed' generatedAt retentionDays hexisting hobserved hperm
      hperm'
    exact Ledger.merge_perm py hexisting hobserved hperm hperm' generatedAt retentionDays
  · intro environ environ' versionFile cfg hload hreorders
    obtain ⟨clusters, hload', hperm⟩ := Config.load_perm hreorders hload
    refine ⟨_, hload', fun listing now uuid getRuns payloads stats h => ?_⟩
    exact prepare_perm hpq hjson (Config.load_accepted hload) (Config.load_accepted hload') hperm h

/-! ## The reference deployment, reversed -/

/-- The reference platform, on which every other `CLUSTERS_JSON` is the reversed one. -/
def reversing : Platform Reference.TaggedBytes :=
  { Reference.platform with
    jsonLoadsText := fun text =>
      if text = Reference.clustersText then .ok Reference.clustersJson
      else .ok (.arr [.obj [("name", .str "beta"), ("namespace", .str "ci")],
        .obj [("name", .str "alpha"), ("base_url", .str "https://alpha")]]) }

theorem reversing_parquetFaithful : ParquetFaithful reversing where
  fromPylist_ok := Reference.parquetFaithful.fromPylist_ok
  fromPylist_fits := Reference.parquetFaithful.fromPylist_fits
  writeTable_ok := Reference.parquetFaithful.writeTable_ok
  readTable_writeTable := Reference.parquetFaithful.readTable_writeTable
  readMetadata_writeTable := Reference.parquetFaithful.readMetadata_writeTable
  castColumn_self := Reference.parquetFaithful.castColumn_self
  castColumn_holds := Reference.parquetFaithful.castColumn_holds

theorem reversing_jsonFaithful : JsonFaithful reversing where
  dumps_ok := Reference.jsonFaithful.dumps_ok
  loads_dumps := Reference.jsonFaithful.loads_dumps

def reversedEnviron : Config.Environ := fun name =>
  if name = "CLUSTERS_JSON" then some "reversed" else Reference.environ name

theorem reversedEnviron_reorders :
    Config.ReordersClusters reversing Reference.environ reversedEnviron where
  others := fun _ hne => if_neg hne
  entries := ⟨Reference.clustersText, "reversed", _, _, rfl, rfl, rfl, rfl, List.Perm.swap _ _ _⟩

/-- The first cluster lists one run, the second one does not answer. -/
def alphaAnswers (cluster : Cluster) : K8sApi.ListOutcome :=
  if cluster.name = "alpha" then .ok ([Reference.workflow "u-1" Reference.succeeded], true)
  else .ok ([], false)

/-- A cycle of the deployment that finds no ledger gets to its publish phase. -/
theorem prepare_reversing :
    ∃ payloads, prepare reversing Reference.config (Reference.instant 0) (Reference.uuid 'a')
      (.ofListing alphaAnswers Reference.config.clusters)
      (raise (.clientError "NoSuchKey") "The specified key does not exist.") =
        .ready payloads Reference.stats := by
  have hfetch : fetchWorkflows reversing (Reference.instant 0).text
      (Answers.ofListing alphaAnswers Reference.config.clusters).entries =
        .ok ([Reference.row (Reference.instant 0).text], Reference.stats) := rfl
  have hledger : readLedger reversing
      (raise (.clientError "NoSuchKey") "The specified key does not exist.") =
        .ok (tableOf [] runsSchema) := decode_none reversing_parquetFaithful (Or.inr rfl)
  have hcollected := collected_of_fetch hfetch
  rw [Answers.clusters_eq] at hcollected
  have hcfg := Config.load_accepted Reference.config_loaded
  have hfits := Reference.rows_fit (Reference.instant 0).text
  have hstored : ∀ row ∈ (tableOf [] runsSchema).toPylist, Record.Fits runsSchema row := by
    simp [toPylist_tableOf]
  have hcut : Ledger.cutoff reversing Reference.config.runRetentionDays
      (Reference.instant 0).text = .ok (Reference.weekBefore 0).text :=
    Ledger.cutoff_text reversing (by decide)
  obtain ⟨payloads, hcompute⟩ : ∃ payloads, compute reversing Reference.config
      (Reference.instant 0) (Reference.uuid 'a') [Reference.row (Reference.instant 0).text]
      Reference.stats (tableOf [] runsSchema) = .ok payloads := by
    exact compute_of_collected reversing_parquetFaithful reversing_jsonFaithful hcfg hcollected
      hfits hstored hcut
  exact ⟨payloads, (prepare_eq_ready_iff _).mpr ⟨_, _, hfetch, rfl, hledger, hcompute⟩⟩

/-- Two runs of the ledger swapped, and the two clusters of the deployment. -/
theorem order_does_not_matter_reversed :
    Ledger.merge reversing [⟨Ledger.betaRow, .null, .null⟩, ⟨(Reference.row "").shared, .null, .null⟩]
        [Reference.row ""] (Reference.instant 0).text 7 =
      Ledger.merge reversing
        [⟨(Reference.row "").shared, .null, .null⟩, ⟨Ledger.betaRow, .null, .null⟩]
        [Reference.row ""] (Reference.instant 0).text 7 ∧
      ∃ cfg', Config.load reversing reversedEnviron Reference.versionFile = .ok cfg' ∧
        ∃ payloads payloads' stats',
          prepare reversing cfg' (Reference.instant 0) (Reference.uuid 'a')
            (.ofListing alphaAnswers cfg'.clusters)
            (raise (.clientError "NoSuchKey") "The specified key does not exist.") =
              .ready payloads' stats' ∧ SameRows reversing payloads payloads' := by
  obtain ⟨hmerge, hcycle⟩ := order_does_not_matter reversing_parquetFaithful reversing_jsonFaithful
  obtain ⟨payloads, hready⟩ := prepare_reversing
  obtain ⟨cfg', hload', hcycle⟩ := hcycle Reference.environ reversedEnviron Reference.versionFile
    Reference.config rfl reversedEnviron_reorders
  obtain ⟨payloads', stats', hready', hsame⟩ := hcycle _ _ _ _ _ _ hready
  refine ⟨hmerge _ _ _ _ _ _ ?_ ?_ (List.Perm.swap _ _ _) (List.Perm.refl _),
    cfg', hload', payloads, payloads', stats', hready', hsame⟩
  · show (_ : List Ledger.Identity).Nodup
    decide
  · show (_ : List Ledger.Identity).Nodup
    decide

end ArgoExporter.Main
