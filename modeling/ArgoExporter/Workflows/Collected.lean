/-
  ArgoExporter.Workflows.Collected

  What the rest of a cycle relies on about a collection that ends normally:
  one entry per cluster, counts that add up, and rows that name an available
  cluster and the time of the cycle.
-/

import ArgoExporter.Workflows.Collection
import ArgoExporter.Workflows.RowTypes

namespace ArgoExporter.Workflows

open ArgoExporter.Py
open ArgoExporter.ParquetIo

/-- The rows and entries of a collection of these clusters. -/
structure Collected (clusters : List Cluster) (observedAt : String) (rows : List SnapshotRow)
    (stats : List ClusterStat) : Prop where
  names : stats.map ClusterStat.name = clusters.map Cluster.name
  accounted : ((stats.filter ClusterStat.ok).map ClusterStat.workflows).sum = rows.length
  unavailable : ∀ stat ∈ stats, stat.ok = false → stat.workflows = 0
  available : ∀ row ∈ rows, ∃ stat ∈ stats, stat.ok = true ∧ row.shared.cluster = .str stat.name
  observed : ∀ row ∈ rows, row.observedAt = .str observedAt

variable {Bytes : Type} {py : Platform Bytes} {observedAt : String}

/-- A listing outcome with which a cluster's part of the collection ends normally. -/
theorem handled_of_collectCluster {cluster : Cluster} {outcome : K8sApi.ListOutcome}
    {part : List SnapshotRow × ClusterStat}
    (h : collectCluster py observedAt cluster outcome = .ok part) : Handled outcome := by
  intro e he
  subst he
  simp only [collectCluster] at h
  by_contra hcls
  rw [if_neg hcls] at h
  exact absurd h (by simp)

theorem handled_of_foldlM {answers : List (Cluster × K8sApi.ListOutcome)}
    {start result : List SnapshotRow × List ClusterStat}
    (h : answers.foldlM (collectStep py observedAt) start = .ok result) :
    ∀ a ∈ answers, Handled a.2 := by
  induction answers generalizing start with
  | nil => simp
  | cons a answers ih =>
      rw [List.foldlM_cons] at h
      obtain ⟨next, hstep, h⟩ := bind_eq_ok.mp h
      obtain ⟨part, hpart, _⟩ := bind_eq_ok.mp hstep
      exact List.forall_mem_cons.mpr ⟨handled_of_collectCluster hpart, ih h⟩

/-- The parts of a collection that ends normally. -/
theorem contributions_of_fetch {answers : List (Cluster × K8sApi.ListOutcome)}
    {rows : List SnapshotRow} {stats : List ClusterStat}
    (h : fetchWorkflows py observedAt answers = .ok (rows, stats)) :
    ∃ parts, Contributions py observedAt answers parts ∧ rows = parts.flatMap Prod.fst ∧
      stats = parts.map Prod.snd := by
  obtain ⟨parts, hparts, hfetch⟩ :=
    fetchWorkflows_eq_ok py observedAt answers (handled_of_foldlM h)
  rw [hfetch, Except.ok.injEq, Prod.mk.injEq] at h
  exact ⟨parts, hparts, h.1.symm, h.2.symm⟩

/-! ## Rows of one object -/

theorem toRow_stamps {wf : Json} {clusterName : String} {row : SnapshotRow}
    (h : toRow py wf clusterName observedAt = .ok row) :
    row.shared.cluster = .str clusterName ∧ row.observedAt = .str observedAt := by
  obtain ⟨_, step, createdAt, startedAt, finishedAt, duration, _, _, rfl⟩ := toRow_eq_ok h
  exact ⟨rfl, rfl⟩

/-- `metadata.uid` of an object. -/
def uidOf (wf : Json) : Json := (wf.get "metadata").get "uid"

/-- The uid of a row is the one of its object, which is not blank. -/
theorem toRow_uid {wf : Json} {clusterName : String} {row : SnapshotRow}
    (h : toRow py wf clusterName observedAt = .ok row) :
    row.shared.uid = uidOf wf ∧ IsNonBlank row.shared.uid := by
  obtain ⟨hvalid, step, createdAt, startedAt, finishedAt, duration, _, _, rfl⟩ := toRow_eq_ok h
  have hnonblank : IsNonBlank (uidOf wf) := hvalid.metadata.2.1 "uid" (by simp)
  have huid : (orEmptyDict (wf.get "metadata")).getD "uid" (.str "") = uidOf wf := by
    rw [orEmptyDict_getD, getD_of_isNonBlank _ hnonblank]
    rfl
  refine ⟨huid, ?_⟩
  rw [← huid] at hnonblank
  exact hnonblank

theorem IsNonBlank.truthy {v : Json} (h : IsNonBlank v) : v.truthy = true := by
  obtain ⟨s, rfl, hs⟩ := h
  have hne : s ≠ "" := by
    rintro rfl
    exact hs rfl
  simpa [Json.truthy] using hne

theorem IsNonBlank.orEmpty_inj {v w : Json} (hv : IsNonBlank v) (hw : IsNonBlank w)
    (h : v.orEmpty = w.orEmpty) : v = w := by
  obtain ⟨s, rfl, _⟩ := hv
  obtain ⟨t, rfl, _⟩ := hw
  rw [Json.orEmpty_str, Json.orEmpty_str] at h
  rw [h]

/-! ## Well-formed collections -/

theorem Converts.stamps {cluster : Cluster} {items : List Json} {rows : List SnapshotRow}
    (h : Converts py observedAt cluster items rows) :
    ∀ row ∈ rows, row.shared.cluster = .str cluster.name ∧ row.observedAt = .str observedAt := by
  induction h with
  | nil => simp
  | cons hrow _ ih => exact List.forall_mem_cons.mpr ⟨toRow_stamps hrow, ih⟩

/-- The part of one cluster. -/
theorem Contribution.collected {answer : Cluster × K8sApi.ListOutcome} {rows : List SnapshotRow}
    {stat : ClusterStat} (h : Contribution py observedAt answer rows stat) :
    Collected [answer.1] observedAt rows [stat] := by
  cases hok : stat.ok with
  | true =>
      obtain ⟨items, converted, hout, hconv⟩ := h.ok_iff.mp hok
      obtain ⟨rfl, hcount⟩ := h.rows_of_ok items converted hout hconv
      have hstamps := hconv.stamps
      exact {
        names := by simp [h.name]
        accounted := by simp [hok, hcount, hconv.length_eq]
        unavailable := by simp [hok]
        available := fun row hrow =>
          ⟨stat, List.mem_singleton_self stat, hok, by rw [h.name, (hstamps row hrow).1]⟩
        observed := fun row hrow => (hstamps row hrow).2 }
  -- a cluster without an answer contributes nothing
  | false =>
      obtain ⟨rfl, hcount⟩ := h.nothing_of_not_ok hok
      exact {
        names := by simp [h.name]
        accounted := by simp [hok]
        unavailable := by simp [hcount]
        available := by simp
        observed := by simp }

theorem Collected.append {clusters clusters' : List Cluster} {rows rows' : List SnapshotRow}
    {stats stats' : List ClusterStat} (h : Collected clusters observedAt rows stats)
    (h' : Collected clusters' observedAt rows' stats') :
    Collected (clusters ++ clusters') observedAt (rows ++ rows') (stats ++ stats') where
  names := by rw [List.map_append, List.map_append, h.names, h'.names]
  accounted := by
    rw [List.filter_append, List.map_append, List.sum_append, h.accounted, h'.accounted,
      List.length_append]
  unavailable := List.forall_mem_append.mpr ⟨h.unavailable, h'.unavailable⟩
  available := by
    refine List.forall_mem_append.mpr ⟨fun row hrow => ?_, fun row hrow => ?_⟩
    · obtain ⟨stat, hmem, hstat⟩ := h.available row hrow
      exact ⟨stat, List.mem_append_left _ hmem, hstat⟩
    · obtain ⟨stat, hmem, hstat⟩ := h'.available row hrow
      exact ⟨stat, List.mem_append_right _ hmem, hstat⟩
  observed := List.forall_mem_append.mpr ⟨h.observed, h'.observed⟩

theorem Contributions.collected {answers : List (Cluster × K8sApi.ListOutcome)}
    {parts : List (List SnapshotRow × ClusterStat)}
    (h : Contributions py observedAt answers parts) :
    Collected (answers.map Prod.fst) observedAt (parts.flatMap Prod.fst)
      (parts.map Prod.snd) := by
  induction h with
  | nil => exact ⟨rfl, rfl, by simp, by simp, by simp⟩
  | cons ha _ ih => exact ha.collected.append ih

/-- Whatever the clusters answer, a collection that ends normally is well formed. -/
theorem collected_of_fetch {answers : List (Cluster × K8sApi.ListOutcome)}
    {rows : List SnapshotRow} {stats : List ClusterStat}
    (h : fetchWorkflows py observedAt answers = .ok (rows, stats)) :
    Collected (answers.map Prod.fst) observedAt rows stats := by
  obtain ⟨parts, hparts, rfl, rfl⟩ := contributions_of_fetch h
  exact hparts.collected

/-! ## Origin of the rows -/

theorem Converts.toRow {cluster : Cluster} {items : List Json} {rows : List SnapshotRow}
    (h : Converts py observedAt cluster items rows) :
    ∀ row ∈ rows, ∃ wf, toRow py wf cluster.name observedAt = .ok row := by
  induction h with
  | nil => simp
  | cons hrow _ ih => exact List.forall_mem_cons.mpr ⟨⟨_, hrow⟩, ih⟩

theorem Contribution.toRow {answer : Cluster × K8sApi.ListOutcome} {rows : List SnapshotRow}
    {stat : ClusterStat} (h : Contribution py observedAt answer rows stat) :
    ∀ row ∈ rows, ∃ wf, toRow py wf answer.1.name observedAt = .ok row := by
  cases hok : stat.ok with
  | true =>
      obtain ⟨items, converted, hout, hconv⟩ := h.ok_iff.mp hok
      obtain ⟨rfl, _⟩ := h.rows_of_ok items converted hout hconv
      exact hconv.toRow
  | false =>
      obtain ⟨rfl, _⟩ := h.nothing_of_not_ok hok
      simp

theorem Contributions.toRow {answers : List (Cluster × K8sApi.ListOutcome)}
    {parts : List (List SnapshotRow × ClusterStat)} (h : Contributions py observedAt answers parts) :
    ∀ row ∈ parts.flatMap Prod.fst, ∃ wf clusterName,
      toRow py wf clusterName observedAt = .ok row := by
  induction h with
  | nil => simp
  | cons ha _ ih =>
      rw [List.flatMap_cons, List.forall_mem_append]
      refine ⟨fun row hrow => ?_, ih⟩
      obtain ⟨wf, hwf⟩ := ha.toRow row hrow
      exact ⟨wf, _, hwf⟩

/-- Every collected row is the row of some listed object. -/
theorem toRow_of_fetch {answers : List (Cluster × K8sApi.ListOutcome)} {rows : List SnapshotRow}
    {stats : List ClusterStat} (h : fetchWorkflows py observedAt answers = .ok (rows, stats)) :
    ∀ row ∈ rows, ∃ wf clusterName, toRow py wf clusterName observedAt = .ok row := by
  obtain ⟨parts, hparts, rfl, _⟩ := contributions_of_fetch h
  exact hparts.toRow

/-- No complete listing of the cycle contains two objects of one uid. -/
def DistinctUids (answers : List (Cluster × K8sApi.ListOutcome)) : Prop :=
  ∀ a ∈ answers, ∀ items, a.2 = .ok (items, true) → (items.map uidOf).Nodup

theorem Converts.uids {cluster : Cluster} {items : List Json} {rows : List SnapshotRow}
    (h : Converts py observedAt cluster items rows) :
    rows.map (fun row => row.shared.uid) = items.map uidOf := by
  induction h with
  | nil => rfl
  | cons hrow _ ih => rw [List.map_cons, List.map_cons, (toRow_uid hrow).1, ih]

theorem Contribution.uids_nodup {answer : Cluster × K8sApi.ListOutcome} {rows : List SnapshotRow}
    {stat : ClusterStat} (h : Contribution py observedAt answer rows stat)
    (hdistinct : ∀ items, answer.2 = .ok (items, true) → (items.map uidOf).Nodup) :
    (rows.map fun row => row.shared.uid).Nodup := by
  cases hok : stat.ok with
  | true =>
      obtain ⟨items, converted, hout, hconv⟩ := h.ok_iff.mp hok
      obtain ⟨rfl, _⟩ := h.rows_of_ok items converted hout hconv
      rw [hconv.uids]
      exact hdistinct items hout
  | false =>
      obtain ⟨rfl, _⟩ := h.nothing_of_not_ok hok
      exact List.nodup_nil

theorem Contributions.cells_nodup {answers : List (Cluster × K8sApi.ListOutcome)}
    {parts : List (List SnapshotRow × ClusterStat)} (h : Contributions py observedAt answers parts)
    (hnames : (answers.map fun a => a.1.name).Nodup) (hdistinct : DistinctUids answers) :
    ((parts.flatMap Prod.fst).map fun row => (row.shared.cluster, row.shared.uid)).Nodup := by
  induction h with
  | nil => exact List.nodup_nil
  | @cons a part answers parts ha hrest ih =>
      rw [List.map_cons, List.nodup_cons] at hnames
      rw [List.flatMap_cons, List.map_append, List.nodup_append]
      refine ⟨?_, ih hnames.2 fun b hb => hdistinct b (List.mem_cons_of_mem _ hb), ?_⟩
      · have huids := ha.uids_nodup (hdistinct a List.mem_cons_self)
        refine List.Nodup.of_map Prod.snd ?_
        rw [List.map_map]
        exact huids
      · -- rows of one cluster name it, rows of the others name another one
        rintro x hx y hy rfl
        obtain ⟨row, hrow, rfl⟩ := List.mem_map.mp hx
        obtain ⟨row', hrow', heq⟩ := List.mem_map.mp hy
        obtain ⟨wf, hwf⟩ := ha.toRow row hrow
        have hothers := Contributions.collected hrest
        obtain ⟨stat, hstat, _, hname⟩ := hothers.available row' hrow'
        have hmem : stat.name ∈ (answers.map Prod.fst).map Cluster.name :=
          hothers.names ▸ List.mem_map_of_mem hstat
        have hcluster : Json.str stat.name = .str a.1.name := by
          rw [← hname, (Prod.mk.inj heq).1, (toRow_stamps hwf).1]
        rw [Json.str.inj hcluster, List.map_map] at hmem
        exact hnames.1 hmem

/-- With distinct uids in each listing and distinct cluster names, no two collected rows share
    cluster and uid. -/
theorem cells_nodup_of_fetch {answers : List (Cluster × K8sApi.ListOutcome)}
    {rows : List SnapshotRow} {stats : List ClusterStat}
    (h : fetchWorkflows py observedAt answers = .ok (rows, stats))
    (hnames : (answers.map fun a => a.1.name).Nodup) (hdistinct : DistinctUids answers) :
    (rows.map fun row => (row.shared.cluster, row.shared.uid)).Nodup := by
  obtain ⟨parts, hparts, rfl, _⟩ := contributions_of_fetch h
  exact hparts.cells_nodup hnames hdistinct

end ArgoExporter.Workflows
