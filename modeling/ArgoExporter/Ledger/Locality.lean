/-
  ArgoExporter.Ledger.Locality

  The history of a cluster is its own: the rows a merge holds of one cluster
  are the merge of the stored and the observed rows of that cluster.
-/

import ArgoExporter.Ledger.Lookups

namespace ArgoExporter.Ledger

open ArgoExporter.Lib
open ArgoExporter.Py
open ArgoExporter.ParquetIo

variable {Bytes : Type} (py : Platform Bytes)

/-! ## Rows of one cluster -/

/-- The row names this cluster. -/
def ofCluster (cluster : String) (row : SharedColumns) : Bool :=
  match row.cluster with
  | .str name => name = cluster
  | _ => false

/-- The rows of one cluster, in their order. -/
def storedOf (cluster : String) (rows : List LedgerRow) : List LedgerRow :=
  rows.filter fun row => ofCluster cluster row.shared

def observedOf (cluster : String) (rows : List SnapshotRow) : List SnapshotRow :=
  rows.filter fun row => ofCluster cluster row.shared

/-- A named cluster has the rows whose identity names it. -/
theorem ofCluster_iff {cluster : String} (hne : cluster ≠ "") (row : SharedColumns) :
    ofCluster cluster row = true ↔ (identity row).1 = cluster := by
  unfold ofCluster identity
  cases row.cluster with
  | str name => exact decide_eq_true_iff
  | _ => exact ⟨fun h => absurd h (by simp), fun h => absurd h.symm hne⟩

/-- Among the rows of a cluster are all of an identity that names it, and none of another one. -/
theorem filter_ofCluster {α : Type} {cluster : String} (hne : cluster ≠ "")
    (shared : α → SharedColumns) (rows : List α) (key : Identity) :
    (rows.filter fun row => ofCluster cluster (shared row)).filter
        (fun row => (shared row).uid.truthy ∧ identity (shared row) = key) =
      if key.1 = cluster then
        rows.filter fun row => (shared row).uid.truthy ∧ identity (shared row) = key
      else [] := by
  rw [List.filter_filter]
  by_cases hkey : key.1 = cluster
  · rw [if_pos hkey]
    apply List.filter_congr
    intro row _
    rw [Bool.and_eq_left_iff_imp]
    intro hrow
    rw [ofCluster_iff hne, (of_decide_eq_true hrow).2]
    exact hkey
  · rw [if_neg hkey, List.filter_eq_nil_iff]
    intro row _ hrow
    rw [Bool.and_eq_true, ofCluster_iff hne] at hrow
    exact hkey ((of_decide_eq_true hrow.1).2 ▸ hrow.2)

section Lookups

variable {cluster : String} (hne : cluster ≠ "")

include hne

theorem storedRow_storedOf (existing : List LedgerRow) (key : Identity) :
    storedRow (storedOf cluster existing) key =
      if key.1 = cluster then storedRow existing key else none := by
  unfold storedRow storedOf
  rw [filter_ofCluster hne LedgerRow.shared]
  split <;> rfl

theorem lastObservation_observedOf (observed : List SnapshotRow) (key : Identity) :
    lastObservation (observedOf cluster observed) key =
      if key.1 = cluster then lastObservation observed key else none := by
  unfold lastObservation observedOf
  rw [filter_ofCluster hne SnapshotRow.shared]
  split <;> rfl

/-- After the observations of one cluster, its runs are held as after all observations, and no
    others are. -/
theorem get?_observeAll_ofCluster (existing : List LedgerRow) (observed : List SnapshotRow)
    (generatedAt : String) (key : Identity) :
    (observeAll py (storedOf cluster existing) (observedOf cluster observed) generatedAt).get? key =
      if key.1 = cluster then (observeAll py existing observed generatedAt).get? key else none := by
  rw [get?_observeAll, get?_observeAll, storedRow_storedOf hne, lastObservation_observedOf hne]
  by_cases hkey : key.1 = cluster
  · rw [if_pos hkey, if_pos hkey, if_pos hkey]
  · rw [if_neg hkey, if_neg hkey, if_neg hkey]

end Lookups

/-! ## Locality -/

section Locality

variable {cluster : String} (hne : cluster ≠ "")

include hne

/-- The rows of one cluster in a merge are the merge of its own rows, errors included. -/
theorem storedOf_merge (existing : List LedgerRow) (observed : List SnapshotRow)
    (generatedAt : String) (retentionDays : Int) :
    (merge py existing observed generatedAt retentionDays).map (storedOf cluster) =
      merge py (storedOf cluster existing) (observedOf cluster observed) generatedAt
        retentionDays := by
  cases hcut : cutoff py retentionDays generatedAt with
  | error e =>
      rw [merge_of_cutoff_error py hcut, merge_of_cutoff_error py hcut]
      rfl
  | ok boundary =>
      obtain ⟨merged, h⟩ : ∃ merged, merge py existing observed generatedAt retentionDays =
          .ok merged := merge_of_cutoff py hcut
      obtain ⟨mine, hmine⟩ : ∃ merged, merge py (storedOf cluster existing)
          (observedOf cluster observed) generatedAt retentionDays = .ok merged :=
        merge_of_cutoff py hcut
      have hsorted : ((storedOf cluster merged).map sortKey).Pairwise (· < ·) :=
        (merge_increasing py h).sublist (List.filter_sublist.map sortKey)
      -- both lists are increasing, so it is enough that they have the same rows
      have heq : storedOf cluster merged = mine := by
        apply eq_of_increasing hsorted (merge_increasing py hmine)
        intro row
        rw [storedOf, List.mem_filter, ofCluster_iff hne, mem_merge_iff py hcut h,
          mem_merge_iff py hcut hmine, get?_observeAll_ofCluster py hne]
        by_cases hid : (identity row.shared).1 = cluster
        · rw [if_pos hid]
          exact and_iff_left hid
        · rw [if_neg hid]
          exact ⟨fun hrow => absurd hrow.2 hid, fun hrow => absurd hrow.1 (by simp)⟩
      rw [h, hmine, ← heq]
      rfl

/-- The history of a cluster depends on its own rows only: it is the merge of these, and stays the
    same whatever the other clusters store, list or mint. -/
theorem history_is_local (existing : List LedgerRow) (observed : List SnapshotRow)
    (generatedAt : String) (retentionDays : Int) :
    (merge py existing observed generatedAt retentionDays).map (storedOf cluster) =
        merge py (storedOf cluster existing) (observedOf cluster observed) generatedAt
          retentionDays ∧
      ∀ existing' observed', storedOf cluster existing' = storedOf cluster existing →
        observedOf cluster observed' = observedOf cluster observed →
        (merge py existing' observed' generatedAt retentionDays).map (storedOf cluster) =
          (merge py existing observed generatedAt retentionDays).map (storedOf cluster) := by
  refine ⟨storedOf_merge py hne existing observed generatedAt retentionDays, ?_⟩
  intro existing' observed' hstored hobserved
  rw [storedOf_merge py hne, storedOf_merge py hne, hstored, hobserved]

end Locality

/-- The reference run as another cluster lists it, under the same uid. -/
def betaRow : SharedColumns := { (Reference.row "").shared with cluster := .str "beta" }

/-- A run of another cluster with the same uid has no part in the history of `alpha`. -/
theorem history_is_local_same_uid :
    (merge Reference.platform [⟨betaRow, .null, .null⟩] [⟨betaRow, .null⟩, Reference.row ""]
        (Reference.instant 0).text 7).map (storedOf "alpha") =
        merge Reference.platform (storedOf "alpha" [⟨betaRow, .null, .null⟩])
          (observedOf "alpha" [⟨betaRow, .null⟩, Reference.row ""]) (Reference.instant 0).text 7 ∧
      ∀ existing' observed',
        storedOf "alpha" existing' = storedOf "alpha" [⟨betaRow, .null, .null⟩] →
        observedOf "alpha" observed' =
          observedOf "alpha" [⟨betaRow, .null⟩, Reference.row ""] →
        (merge Reference.platform existing' observed' (Reference.instant 0).text 7).map
            (storedOf "alpha") =
          (merge Reference.platform [⟨betaRow, .null, .null⟩] [⟨betaRow, .null⟩, Reference.row ""]
            (Reference.instant 0).text 7).map (storedOf "alpha") :=
  history_is_local Reference.platform (show "alpha" ≠ "" by decide) _ _ _ _

end ArgoExporter.Ledger
