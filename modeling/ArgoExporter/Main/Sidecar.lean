/-
  ArgoExporter.Main.Sidecar

  The sidecar of a cycle keeps the contract of `meta.json`: what an accepted
  configuration and a well-formed collection guarantee is what the contract
  asks for.
-/

import ArgoExporter.Config.Accepted
import ArgoExporter.Generation
import ArgoExporter.MetaSchema.Contract
import ArgoExporter.Workflows.Collected

namespace ArgoExporter.MetaSchema

open ArgoExporter.Lib
open ArgoExporter.Py

/-! ## Timestamp and id -/

theorem isUtcSecond_text (t : Stamp) : IsUtcSecond t.text := by
  have hwhole : t.naive.microsecond = 0 := by
    rw [t.naive.microsecond_eq]
    exact Nat.mul_mod_left _ _
  refine ⟨t.naive, hwhole, String.toList_inj.mp ?_⟩
  rw [t.toList_text, toList_isoformatZ_whole hwhole, fullWidth, monthDay, hms]
  simp only [List.append_assoc, List.cons_append]

theorem isSuffix_take (uuid : Main.UuidHex) : IsSuffix (uuid.digits.take 12) where
  length_eq := by
    rw [List.length_take, uuid.length_eq]
    rfl
  hex c hc := (hexClass_iff c).mp (uuid.hex c (List.mem_of_mem_take hc))

theorem generationId_ne_empty (now : Stamp) (uuid : Main.UuidHex) :
    Main.generationId now uuid ≠ "" := extended_ne_empty _ _

theorem generatedAt_starts (now : Stamp) (uuid : Main.UuidHex) :
    (now.text ++ "-").toList.isPrefixOf (Main.generationId now uuid).toList = true :=
  List.isPrefixOf_iff_prefix.mpr (prefix_extended _ _)

/-! ## Clusters -/

theorem hasExactly_obj (fields : List (String × Json)) :
    HasExactly (.obj fields) (fields.map Prod.fst) := by
  refine ⟨rfl, fun key => ?_⟩
  rw [has_obj_iff, List.mem_map]

theorem contract_clusterEntry {stat : Workflows.ClusterStat} (h : stat.name ≠ "") :
    ClusterContract (Main.clusterEntry stat) where
  fields := hasExactly_obj _
  name := ⟨stat.name, rfl, h⟩
  ok := ⟨stat.ok, rfl⟩
  workflows := ⟨stat.workflows, rfl, Int.natCast_nonneg _⟩

theorem okCount_clusterEntry (stat : Workflows.ClusterStat) :
    okCount (Main.clusterEntry stat) = if stat.ok then (stat.workflows : Int) else 0 := by
  have hok : (Main.clusterEntry stat).get "ok" = .bool stat.ok := rfl
  have hworkflows : (Main.clusterEntry stat).get "workflows" = .int stat.workflows := rfl
  rw [okCount, hok, hworkflows]
  cases stat.ok <;> rfl

theorem sum_okCount_clusterEntries (stats : List Workflows.ClusterStat) :
    ((stats.map Main.clusterEntry).map okCount).sum =
      (((stats.filter Workflows.ClusterStat.ok).map Workflows.ClusterStat.workflows).sum : Nat) := by
  induction stats with
  | nil => rfl
  | cons stat stats ih =>
      rw [List.map_cons, List.map_cons, List.sum_cons, ih, okCount_clusterEntry, List.filter_cons]
      split_ifs
      · rw [List.map_cons, List.sum_cons, Nat.cast_add]
      · rw [Int.zero_add]

theorem contract_clusterEntries {clusters : List Cluster} {observedAt : String}
    {rows : List ParquetIo.SnapshotRow} {stats : List Workflows.ClusterStat}
    (hclusters : ClustersAccepted clusters)
    (hcollected : Workflows.Collected clusters observedAt rows stats) :
    ClustersContract (stats.map Main.clusterEntry) (.int rows.length) where
  nonempty h := by
    rw [List.map_eq_nil_iff.mp h] at hcollected
    exact hclusters.nonempty (List.map_eq_nil_iff.mp hcollected.names.symm)
  each := by
    rw [List.forall_mem_map]
    intro stat hstat
    have hmem : stat.name ∈ clusters.map Cluster.name :=
      hcollected.names ▸ List.mem_map_of_mem hstat
    obtain ⟨cluster, hcluster, hname⟩ := List.mem_map.mp hmem
    exact contract_clusterEntry (hname ▸ hclusters.names_ne cluster hcluster)
  names_distinct := by
    -- the statistics are in the order of the configuration, whose names are distinct
    have hnodup := hclusters.names_nodup
    rw [← hcollected.names, List.Nodup, List.pairwise_map] at hnodup
    rw [List.pairwise_map]
    exact hnodup.imp fun hne heq => hne (Json.str.inj heq)
  unavailable := by
    rw [List.forall_mem_map]
    intro stat hstat hok
    have hzero := hcollected.unavailable stat hstat (Json.bool.inj hok)
    show Json.int stat.workflows = .int 0
    rw [hzero]
    rfl
  total_eq := by rw [sum_okCount_clusterEntries, hcollected.accounted]

/-! ## The sidecar -/

theorem contract_sidecar {cfg : Config} (hcfg : cfg.Accepted) (now : Stamp) (uuid : Main.UuidHex)
    {observedAt : String} {rows : List ParquetIo.SnapshotRow}
    {stats : List Workflows.ClusterStat}
    (hcollected : Workflows.Collected cfg.clusters observedAt rows stats) (runs : Nat) :
    Contract (Main.sidecar cfg now uuid stats rows.length runs) where
  fields := hasExactly_obj _
  version := ⟨cfg.version, rfl, hcfg.version_ne⟩
  identity := ⟨now.text, uuid.digits.take 12, isUtcSecond_text now, isSuffix_take uuid, rfl, rfl⟩
  pollInterval := ⟨cfg.pollIntervalSeconds, rfl, hcfg.pollInterval_pos⟩
  retention := ⟨cfg.runRetentionDays, rfl, hcfg.retention_pos⟩
  workflows := ⟨rows.length, rfl, Int.natCast_nonneg _⟩
  runs := ⟨runs, rfl, Int.natCast_nonneg _⟩
  clusters := ⟨_, rfl, contract_clusterEntries hcfg.clusters hcollected⟩

/-- Every sidecar a cycle builds is accepted by `validate`. -/
theorem validate_sidecar {Bytes : Type} (py : Platform Bytes) {cfg : Config} (hcfg : cfg.Accepted)
    (now : Stamp) (uuid : Main.UuidHex) {observedAt : String}
    {rows : List ParquetIo.SnapshotRow} {stats : List Workflows.ClusterStat}
    (hcollected : Workflows.Collected cfg.clusters observedAt rows stats) (runs : Nat) :
    validate py (Main.sidecar cfg now uuid stats rows.length runs) = .ok () :=
  validate_of_contract py (contract_sidecar hcfg now uuid hcollected runs)

end ArgoExporter.MetaSchema
