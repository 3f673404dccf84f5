/-
  ArgoExporter.Ledger.Lookups

  A merge reads its two inputs only through lookups: the stored row and the
  last observation of each run.  Inputs with the same lookups merge to the same
  list, so the order of the inputs does not matter, and the rows of one cluster
  do not depend on those of another.
-/

import ArgoExporter.Ledger.Spec

namespace ArgoExporter.Ledger

open ArgoExporter.Lib
open ArgoExporter.Py
open ArgoExporter.ParquetIo

variable {Bytes : Type} (py : Platform Bytes)

/-! ## Same lookups -/

section Lookups

variable {existing existing' : List LedgerRow} {observed observed' : List SnapshotRow}

/-- A run has the same row after the observations if both lookups agree on it. -/
theorem get?_observeAll_congr {key : Identity} (generatedAt : String)
    (hstored : storedRow existing' key = storedRow existing key)
    (hobserved : lastObservation observed' key = lastObservation observed key) :
    (observeAll py existing' observed' generatedAt).get? key =
      (observeAll py existing observed generatedAt).get? key := by
  rw [get?_observeAll, get?_observeAll, hstored, hobserved]

/-- Inputs with the same lookups merge alike, errors included. -/
theorem merge_congr (hstored : ∀ key, storedRow existing' key = storedRow existing key)
    (hobserved : ∀ key, lastObservation observed' key = lastObservation observed key)
    (generatedAt : String) (retentionDays : Int) :
    merge py existing' observed' generatedAt retentionDays =
      merge py existing observed generatedAt retentionDays := by
  cases hcut : cutoff py retentionDays generatedAt with
  | error e =>
      rw [merge_of_cutoff_error py hcut, merge_of_cutoff_error py hcut]
  | ok boundary =>
      obtain ⟨merged, h⟩ : ∃ merged, merge py existing observed generatedAt retentionDays =
          .ok merged := merge_of_cutoff py hcut
      obtain ⟨merged', h'⟩ : ∃ merged, merge py existing' observed' generatedAt retentionDays =
          .ok merged := merge_of_cutoff py hcut
      have heq : merged' = merged := by
        apply merge_unique py h' h
        intro row
        rw [mem_merge_iff py hcut h', mem_merge_iff py hcut h,
          get?_observeAll_congr py generatedAt (hstored _) (hobserved _)]
      rw [h, h', heq]

end Lookups

/-! ## Order of the inputs -/

/-- No two of the rows with a uid are about one run. -/
def DistinctRuns (rows : List SharedColumns) : Prop :=
  ((rows.filter fun row => row.uid.truthy).map identity).Nodup

/-- If no key repeats among the rows that count, the rows of one key stand alone, whatever the order
    of all rows. -/
theorem filter_key_eq_of_perm {α κ : Type} [DecidableEq κ] {f : α → κ} {p : α → Bool}
    {l l' : List α} (hnd : ((l.filter p).map f).Nodup) (hperm : l'.Perm l) (key : κ) :
    l'.filter (fun x => p x ∧ f x = key) = l.filter (fun x => p x ∧ f x = key) := by
  have hfiltered := hperm.filter fun x => p x ∧ f x = key
  have hsub : (l.filter fun x => p x ∧ f x = key).Sublist (l.filter p) :=
    List.monotone_filter_right l fun x hx => (of_decide_eq_true hx).1
  have hkeys := hnd.sublist (hsub.map f)
  have hall : ∀ x ∈ l.filter (fun x => p x ∧ f x = key), f x = key :=
    fun x hx => (of_decide_eq_true (List.mem_filter.mp hx).2).2
  generalize l.filter (fun x => p x ∧ f x = key) = found at hfiltered hkeys hall
  match found with
  | [] => exact List.perm_nil.mp hfiltered
  | [x] => exact List.perm_singleton.mp hfiltered
  | x :: y :: rest =>
      -- two rows of the key would be two equal keys
      have hx := hall x List.mem_cons_self
      have hy := hall y (List.mem_cons_of_mem x List.mem_cons_self)
      rw [List.map_cons, List.map_cons, List.nodup_cons, hx, hy] at hkeys
      exact absurd List.mem_cons_self hkeys.1

section Order

variable {existing existing' : List LedgerRow} {observed observed' : List SnapshotRow}

theorem storedRow_perm (hnd : DistinctRuns (existing.map LedgerRow.shared))
    (hperm : existing'.Perm existing) (key : Identity) :
    storedRow existing' key = storedRow existing key := by
  unfold DistinctRuns at hnd
  rw [List.filter_map, List.map_map] at hnd
  have hfilter := filter_key_eq_of_perm (f := fun row : LedgerRow => identity row.shared)
    (p := fun row => row.shared.uid.truthy) hnd hperm key
  unfold storedRow
  rw [hfilter]

theorem lastObservation_perm (hnd : DistinctRuns (observed.map SnapshotRow.shared))
    (hperm : observed'.Perm observed) (key : Identity) :
    lastObservation observed' key = lastObservation observed key := by
  unfold DistinctRuns at hnd
  rw [List.filter_map, List.map_map] at hnd
  have hfilter := filter_key_eq_of_perm (f := fun row : SnapshotRow => identity row.shared)
    (p := fun row => row.shared.uid.truthy) hnd hperm key
  unfold lastObservation
  rw [hfilter]

/-- With one row per run, a merge does not depend on the order of its inputs. -/
theorem merge_perm (hexisting : DistinctRuns (existing.map LedgerRow.shared))
    (hobserved : DistinctRuns (observed.map SnapshotRow.shared))
    (hperm : existing'.Perm existing) (hperm' : observed'.Perm observed) (generatedAt : String)
    (retentionDays : Int) :
    merge py existing' observed' generatedAt retentionDays =
      merge py existing observed generatedAt retentionDays :=
  merge_congr py (storedRow_perm hexisting hperm) (lastObservation_perm hobserved hperm')
    generatedAt retentionDays

end Order

end ArgoExporter.Ledger
