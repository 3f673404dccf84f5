/-
  ArgoExporter.Ledger.Merged

  The rows a merge writes: they fit the ledger schema when its inputs fit
  theirs, and the row of a run observed in the cycle has the columns of the
  observation.
-/

import ArgoExporter.Ledger
import ArgoExporter.ParquetRoundTrip
import ArgoExporter.Workflows.Collected

namespace ArgoExporter.Ledger

open ArgoExporter.Lib
open ArgoExporter.Py
open ArgoExporter.ParquetIo
open ArgoExporter.Workflows

variable {Bytes : Type} {py : Platform Bytes}

/-! ## Taxonomy -/

/-- Deriving the taxonomy of an extracted row again changes nothing. -/
theorem rederive_toRow {wf : Json} {clusterName observedAt : String} {row : SnapshotRow}
    (h : toRow py wf clusterName observedAt = .ok row) : rederive py row = row.shared := by
  obtain ⟨_, step, createdAt, startedAt, finishedAt, duration, _, _, rfl⟩ := toRow_eq_ok h
  rfl

theorem typed_rederive {row : SnapshotRow} (h : row.shared.Typed) : (rederive py row).Typed :=
  { h with
    failureFingerprint := (isText_failureColumns _ _).1
    failureClass := (isText_failureColumns _ _).2 }

/-! ## Rows -/

section Rows

variable {existing merged : List LedgerRow} {observed : List SnapshotRow} {generatedAt : String}
  {retentionDays : Int}

/-- A merged row is one that was stored, or the last observation of its run. -/
theorem mem_merge_cases (h : merge py existing observed generatedAt retentionDays = .ok merged)
    {row : LedgerRow} (hrow : row ∈ merged) :
    row ∈ existing ∨ ∃ o ∈ observed,
      row = ⟨rederive py o, firstSeen (storedRow existing (identity row.shared)) generatedAt,
        .str generatedAt⟩ := by
  obtain ⟨boundary, hcut, _⟩ := merge_eq_ok py h
  obtain ⟨hget, _⟩ := (mem_merge_iff py hcut h row).mp hrow
  rw [get?_observeAll] at hget
  cases hobs : lastObservation observed (identity row.shared) with
  | some o =>
      rw [hobs, Option.some.injEq] at hget
      exact Or.inr ⟨o, (lastObservation_mem hobs).1, hget.symm⟩
  | none =>
      rw [hobs] at hget
      exact Or.inl (storedRow_mem hget).1

/-- Rows that fit merge into rows that fit. -/
theorem fits_merge (h : merge py existing observed generatedAt retentionDays = .ok merged)
    (hexisting : ∀ row ∈ existing, Record.Fits runsSchema row.toRecord)
    (hobserved : ∀ row ∈ observed, Record.Fits workflowsSchema row.toRecord) :
    ∀ row ∈ merged, Record.Fits runsSchema row.toRecord := by
  intro row hrow
  rcases mem_merge_cases h hrow with hmem | ⟨o, ho, heq⟩
  · exact hexisting row hmem
  · rw [heq, fits_ledger_iff]
    refine ⟨typed_rederive ((fits_snapshot_iff o).mp (hobserved o ho)).1, ?_, isText_str _⟩
    cases hstored : storedRow existing (identity row.shared) with
    | none => exact isText_str _
    | some stored =>
        exact ((fits_ledger_iff stored).mp (hexisting stored (storedRow_mem hstored).1)).2.1

theorem filter_key_eq_singleton {α κ : Type} [DecidableEq κ] {f : α → κ} {l : List α} {a : α}
    (hnd : (l.map f).Nodup) (ha : a ∈ l) : l.filter (fun x => f x = f a) = [a] := by
  induction l with
  | nil => exact absurd ha List.not_mem_nil
  | cons b l ih =>
      rw [List.map_cons, List.nodup_cons] at hnd
      rcases List.mem_cons.mp ha with rfl | ha
      · rw [List.filter_cons_of_pos (by simp), List.filter_eq_nil_iff.mpr]
        intro x hx
        have hne : f x ≠ f a := fun h => hnd.1 (h ▸ List.mem_map_of_mem hx)
        simpa using hne
      · have hne : f b ≠ f a := fun h => hnd.1 (h ▸ List.mem_map_of_mem ha)
        rw [List.filter_cons_of_neg (by simpa using hne)]
        exact ih hnd.2 ha

/-- With distinct identities the last row of a run is its only one. -/
theorem getLast?_of_nodup {α κ : Type} [DecidableEq κ] {f : α → κ} {p : α → Bool} {l : List α}
    {a : α} (hnd : (l.map f).Nodup) (ha : a ∈ l) (hp : p a = true) :
    (l.filter fun x => p x ∧ f x = f a).getLast? = some a := by
  have hboth : (l.filter fun x => p x ∧ f x = f a) =
      (l.filter fun x => f x = f a).filter fun x => p x := by
    rw [List.filter_filter]
    apply List.filter_congr
    intro x _
    simp
  rw [hboth, filter_key_eq_singleton hnd ha, List.filter_cons_of_pos hp]
  rfl

theorem lastObservation_of_nodup (hnd : (observed.map fun row => identity row.shared).Nodup)
    {row : SnapshotRow} (hrow : row ∈ observed) (huid : row.shared.uid.truthy = true) :
    lastObservation observed (identity row.shared) = some row :=
  getLast?_of_nodup (p := fun r : SnapshotRow => r.shared.uid.truthy) hnd hrow huid

theorem storedRow_eq_some_iff (hnd : (existing.map fun row => identity row.shared).Nodup)
    {key : Identity} {row : LedgerRow} :
    storedRow existing key = some row ↔
      row ∈ existing ∧ row.shared.uid.truthy = true ∧ identity row.shared = key := by
  refine ⟨storedRow_mem, ?_⟩
  rintro ⟨hrow, huid, rfl⟩
  exact getLast?_of_nodup (p := fun r : LedgerRow => r.shared.uid.truthy) hnd hrow huid

/-- The merged row of a run is the one it has after the cycle, if it was seen since the cutoff. -/
theorem storedRow_merge {boundary : String}
    (hcut : cutoff py retentionDays generatedAt = .ok boundary)
    (h : merge py existing observed generatedAt retentionDays = .ok merged) (key : Identity) :
    storedRow merged key = ((observeAll py existing observed generatedAt).get? key).filter
      fun row => boundary ≤ row.lastSeenAt.orEmpty := by
  apply Option.ext
  intro row
  rw [storedRow_eq_some_iff (merge_nodup py h), mem_merge_iff py hcut h,
    Option.filter_eq_some_iff, decide_eq_true_eq]
  constructor
  · rintro ⟨⟨hget, hle⟩, _, rfl⟩
    exact ⟨hget, hle⟩
  · rintro ⟨hget, hle⟩
    obtain ⟨rfl, huid⟩ := identity_of_get?_observeAll py hget
    exact ⟨⟨hget, hle⟩, huid, rfl⟩

theorem named_merge
    (h : merge py existing observed generatedAt retentionDays = .ok merged) :
    ∀ row ∈ merged, row.shared.uid.truthy = true := by
  obtain ⟨boundary, hcut, _⟩ := merge_eq_ok py h
  intro row hrow
  exact (identity_of_get?_observeAll py ((mem_merge_iff py hcut h row).mp hrow).1).2

/-- A run observed in the cycle is in the merged ledger, once, as it was observed last. -/
theorem merged_of_lastObservation {boundary : String}
    (h : merge py existing observed generatedAt retentionDays = .ok merged)
    (hcut : cutoff py retentionDays generatedAt = .ok boundary) (hle : boundary ≤ generatedAt)
    {key : Identity} {row : SnapshotRow} (hrow : lastObservation observed key = some row) :
    merged.filter (fun r => identity r.shared = key) =
      [⟨rederive py row, firstSeen (storedRow existing key) generatedAt, .str generatedAt⟩] := by
  obtain ⟨_, _, rfl⟩ := lastObservation_mem hrow
  refine filter_key_eq_singleton (f := fun r : LedgerRow => identity r.shared)
    (merge_nodup py h) (a := ⟨rederive py row, _, _⟩) ?_
  rw [mem_merge_iff py hcut h]
  refine ⟨?_, hle⟩
  rw [get?_observeAll, identity_rederive, hrow]

end Rows

/-- Rows that no two share cluster and uid have distinct identities. -/
theorem identity_nodup {observedAt : String} {rows : List SnapshotRow}
    (hrows : ∀ row ∈ rows, ∃ wf clusterName, toRow py wf clusterName observedAt = .ok row)
    (hnd : (rows.map fun row => (row.shared.cluster, row.shared.uid)).Nodup) :
    (rows.map fun row => identity row.shared).Nodup := by
  rw [List.Nodup, List.pairwise_map] at hnd ⊢
  refine hnd.imp_of_mem fun {a b} ha hb hne heq => hne ?_
  obtain ⟨wf, cluster, hwf⟩ := hrows a ha
  obtain ⟨wf', cluster', hwf'⟩ := hrows b hb
  obtain ⟨hcluster, huid⟩ := Prod.mk.inj heq
  rw [(toRow_stamps hwf).1, (toRow_stamps hwf').1] at hcluster ⊢
  rw [show cluster = cluster' from hcluster,
    (toRow_uid hwf).2.orEmpty_inj (toRow_uid hwf').2 huid]

end ArgoExporter.Ledger
