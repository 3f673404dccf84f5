/-
  ArgoExporter.Generation

  The generation id in the three objects of a cycle: both Parquet footers and
  the sidecar carry the id of the cycle that computed them.
-/

import ArgoExporter.Main
import ArgoExporter.ParquetRoundTrip

namespace ArgoExporter.Main

open ArgoExporter.Py
open ArgoExporter.ParquetIo
open ArgoExporter.S3io
open ArgoExporter.Workflows

/-! ## The sidecar -/

theorem distinctKeys_clusterEntry (stat : ClusterStat) : (clusterEntry stat).DistinctKeys := by
  refine Json.DistinctKeys.obj (by simp) ?_
  intro e he
  simp only [List.mem_cons, List.not_mem_nil, or_false] at he
  rcases he with rfl | rfl | rfl
  · exact .str _
  · exact .bool _
  · exact .int _

/-- A sidecar is a value that JSON encodes. -/
theorem distinctKeys_sidecar (cfg : Config) (now : Stamp) (uuid : UuidHex)
    (stats : List ClusterStat) (workflows runs : Nat) :
    (sidecar cfg now uuid stats workflows runs).DistinctKeys := by
  refine Json.DistinctKeys.obj (by simp) ?_
  intro e he
  simp only [List.mem_cons, List.not_mem_nil, or_false] at he
  rcases he with rfl | rfl | rfl | rfl | rfl | rfl | rfl | rfl
  · exact .str _
  · exact .str _
  · exact .str _
  · exact .int _
  · exact .int _
  · refine .arr fun v hv => ?_
    obtain ⟨stat, _, rfl⟩ := List.mem_map.mp hv
    exact distinctKeys_clusterEntry stat
  · exact .int _
  · exact .int _

section Fields

variable (cfg : Config) (now : Stamp) (uuid : UuidHex) (stats : List ClusterStat)
  (workflows runs : Nat)

@[simp] theorem sidecar_generatedAt :
    (sidecar cfg now uuid stats workflows runs).get "generated_at" = .str now.text := rfl

@[simp] theorem sidecar_pollInterval :
    (sidecar cfg now uuid stats workflows runs).get "poll_interval_seconds" =
      .int cfg.pollIntervalSeconds := rfl

@[simp] theorem sidecar_clusters :
    (sidecar cfg now uuid stats workflows runs).get "clusters" =
      .arr (stats.map clusterEntry) := rfl

@[simp] theorem sidecar_workflows :
    (sidecar cfg now uuid stats workflows runs).get "workflows" = .int workflows := rfl

@[simp] theorem sidecar_runs :
    (sidecar cfg now uuid stats workflows runs).get "runs" = .int runs := rfl

end Fields

/-! ## Objects of a generation -/

variable {Bytes : Type} (py : Platform Bytes)

/-- The object `name` with these bytes says that it belongs to generation `id`. -/
def CarriesId (name : String) (data : Bytes) (id : String) : Prop :=
  if name = "meta.json" then
    ∃ metaJson, py.jsonLoads data = .ok metaJson ∧ metaJson.get "generation_id" = .str id
  else readGenerationId py data = .ok (some id)

/-- The objects of a cycle by name, in the order they are published. -/
def Payloads.objects (payloads : Payloads Bytes) : List (String × Bytes) :=
  [("workflows.parquet", payloads.workflows), ("runs.parquet", payloads.runs),
   ("meta.json", payloads.meta)]

theorem Payloads.objects_names (payloads : Payloads Bytes) :
    payloads.objects.map Prod.fst = publicationObjects := rfl

variable {py}

/-- The sidecar bytes of a cycle decode to its sidecar. -/
theorem compute_meta (hjson : JsonFaithful py) {cfg : Config} {now : Stamp} {uuid : UuidHex}
    {rows : List SnapshotRow} {stats : List ClusterStat} {stored : Table}
    {payloads : Payloads Bytes}
    (h : compute py cfg now uuid rows stats stored = .ok payloads) :
    ∃ runs, py.jsonLoads payloads.meta = .ok (sidecar cfg now uuid stats rows.length runs) ∧
      MetaSchema.validate py (sidecar cfg now uuid stats rows.length runs) = .ok () := by
  obtain ⟨merged, _, _, _, hvalid, hmeta⟩ := compute_eq_ok py h
  refine ⟨merged.length, ?_, hvalid⟩
  exact hjson.loads_dumps _ _ (distinctKeys_sidecar cfg now uuid stats rows.length merged.length)
    hmeta

/-- All three payloads of a cycle carry its id. -/
theorem carriesId_of_compute (hpq : ParquetFaithful py) (hjson : JsonFaithful py) {cfg : Config}
    {now : Stamp} {uuid : UuidHex} {rows : List SnapshotRow} {stats : List ClusterStat}
    {stored : Table} {payloads : Payloads Bytes}
    (h : compute py cfg now uuid rows stats stored = .ok payloads) :
    ∀ o ∈ payloads.objects, CarriesId py o.1 o.2 (generationId now uuid) := by
  obtain ⟨runs, hmeta, _⟩ := compute_meta hjson h
  obtain ⟨merged, _, hworkflows, hruns, _, _⟩ := compute_eq_ok py h
  intro o ho
  simp only [Payloads.objects, List.mem_cons, List.not_mem_nil, or_false] at ho
  rcases ho with rfl | rfl | rfl
  · rw [CarriesId, if_neg (show "workflows.parquet" ≠ "meta.json" by decide)]
    exact readGenerationId_encode hpq (Or.inl rfl) hworkflows
  · rw [CarriesId, if_neg (show "runs.parquet" ≠ "meta.json" by decide)]
    exact readGenerationId_encode hpq (Or.inr rfl) hruns
  · rw [CarriesId, if_pos rfl]
    exact ⟨_, hmeta, rfl⟩

theorem carriesId_of_prepare (hpq : ParquetFaithful py) (hjson : JsonFaithful py) {cfg : Config}
    {now : Stamp} {uuid : UuidHex} {answers : Answers cfg.clusters} {getRuns : Except Exc Bytes}
    {payloads : Payloads Bytes} {stats : List ClusterStat}
    (h : prepare py cfg now uuid answers getRuns = .ready payloads stats) :
    ∀ o ∈ payloads.objects, CarriesId py o.1 o.2 (generationId now uuid) := by
  obtain ⟨rows, stored, _, _, _, hcompute⟩ := (prepare_eq_ready_iff py).mp h
  exact carriesId_of_compute hpq hjson hcompute

end ArgoExporter.Main
