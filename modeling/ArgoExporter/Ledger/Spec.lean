/-
  ArgoExporter.Ledger.Spec

  What one merge does to a stored ledger, in terms of its two inputs: which runs
  the result holds, which row each of them has, and in which order the rows
  stand.  A second merge of the same observations, as after a torn publication,
  then changes only when a new run was first seen.
-/

import ArgoExporter.Ledger.Merged
import ArgoExporter.Reference

namespace ArgoExporter.Ledger

open ArgoExporter.Lib
open ArgoExporter.Py
open ArgoExporter.ParquetIo

variable {Bytes : Type} (py : Platform Bytes)

/-! ## Specification -/

/-- The run has a row with a uid among the stored or the observed rows. -/
def Occurs (existing : List LedgerRow) (observed : List SnapshotRow) (key : Identity) : Prop :=
  (∃ row ∈ existing, row.shared.uid.truthy = true ∧ identity row.shared = key) ∨
    ∃ row ∈ observed, row.shared.uid.truthy = true ∧ identity row.shared = key

/-- When the run was last seen, once the cycle is over. -/
def lastSeen (existing : List LedgerRow) (observed : List SnapshotRow) (generatedAt : String)
    (key : Identity) : String :=
  match lastObservation observed key, storedRow existing key with
  | some _, _ => generatedAt
  | none, some row => row.lastSeenAt.orEmpty
  | none, none => ""

/-- The row of a run observed in the cycle. -/
def observedRow (existing : List LedgerRow) (generatedAt : String) (key : Identity)
    (row : SnapshotRow) : LedgerRow :=
  ⟨rederive py row, firstSeen (storedRow existing key) generatedAt, .str generatedAt⟩

/-- What a merge with this cutoff has to return. -/
structure MergeSpec (existing : List LedgerRow) (observed : List SnapshotRow)
    (generatedAt boundary : String) (merged : List LedgerRow) : Prop where
  /-- The rows are strictly increasing in first-seen time, cluster and uid. -/
  increasing : (merged.map sortKey).Pairwise (· < ·)
  /-- No two rows are about one run. -/
  oneRow : (merged.map fun row => identity row.shared).Nodup
  present : ∀ key, (∃ row ∈ merged, identity row.shared = key) ↔
    Occurs existing observed key ∧ boundary ≤ lastSeen existing observed generatedAt key
  ofObserved : ∀ row ∈ merged, ∀ last,
    lastObservation observed (identity row.shared) = some last →
      row = observedRow py existing generatedAt (identity row.shared) last
  ofStored : ∀ row ∈ merged, lastObservation observed (identity row.shared) = none →
    storedRow existing (identity row.shared) = some row

/-! ## Order -/

/-- Sorting rows with distinct keys by their key leaves the keys strictly increasing. -/
theorem pairwise_lt_insertionSort {α κ : Type} [LinearOrder κ] (f : α → κ) {l : List α}
    (hnd : (l.map f).Nodup) :
    ((l.insertionSort fun a b => f a ≤ f b).map f).Pairwise (· < ·) := by
  rw [List.map_insertionSort (fun a b => f a ≤ f b) (· ≤ ·) f l fun _ _ _ _ => Iff.rfl]
  have hsorted : ((l.map f).insertionSort (· ≤ ·)).Pairwise (· ≤ ·) :=
    List.pairwise_insertionSort _ _
  have hdistinct : ((l.map f).insertionSort (· ≤ ·)).Nodup :=
    (List.perm_insertionSort _ _).nodup_iff.mpr hnd
  apply (hsorted.and hdistinct).imp
  intro a b h
  exact lt_of_le_of_ne h.1 h.2

/-- Rows about different runs have different sort keys. -/
theorem sortKey_nodup {rows : List LedgerRow}
    (h : (rows.map fun row => identity row.shared).Nodup) : (rows.map sortKey).Nodup := by
  have hid : (fun row => identity row.shared) =
      (fun key : String ×ₗ String ×ₗ String => ofLex (ofLex key).2) ∘ sortKey := rfl
  rw [hid, ← List.map_map] at h
  exact List.Nodup.of_map _ h

section Merge

variable {existing merged : List LedgerRow} {observed : List SnapshotRow}
  {generatedAt boundary : String} {retentionDays : Int}

theorem merge_increasing (h : merge py existing observed generatedAt retentionDays = .ok merged) :
    (merged.map sortKey).Pairwise (· < ·) := by
  have hnd := sortKey_nodup (merge_nodup py h)
  unfold merge at h
  obtain ⟨boundary, _, hret⟩ := bind_eq_ok.mp h
  have hmerged := (Except.ok.inj hret).symm
  -- the rows that were sorted have the keys of the sorted ones, so they are distinct too
  rw [hmerged] at hnd ⊢
  exact pairwise_lt_insertionSort sortKey
    (((List.perm_insertionSort _ _).map sortKey).nodup_iff.mp hnd)

/-! ## Rows by identity -/

theorem storedRow_eq_none_iff {key : Identity} :
    storedRow existing key = none ↔
      ∀ row ∈ existing, row.shared.uid.truthy = true → identity row.shared ≠ key := by
  rw [storedRow, List.getLast?_eq_none_iff, List.filter_eq_nil_iff]
  simp only [Bool.decide_and, Bool.decide_eq_true, Bool.and_eq_true, decide_eq_true_eq, not_and]

theorem lastObservation_eq_none_iff {key : Identity} :
    lastObservation observed key = none ↔
      ∀ row ∈ observed, row.shared.uid.truthy = true → identity row.shared ≠ key := by
  rw [lastObservation, List.getLast?_eq_none_iff, List.filter_eq_nil_iff]
  simp only [Bool.decide_and, Bool.decide_eq_true, Bool.and_eq_true, decide_eq_true_eq, not_and]

/-- A run occurs in the inputs when one of the two lookups finds it. -/
theorem occurs_iff {key : Identity} :
    Occurs existing observed key ↔
      storedRow existing key ≠ none ∨ lastObservation observed key ≠ none := by
  rw [Ne, Ne, storedRow_eq_none_iff, lastObservation_eq_none_iff]
  simp only [Occurs, not_forall, not_not, exists_prop]

/-- The row a run has in the dictionary when the observations are in. -/
theorem get?_observeAll_of_observed {key : Identity} {last : SnapshotRow}
    (h : lastObservation observed key = some last) :
    (observeAll py existing observed generatedAt).get? key =
      some (observedRow py existing generatedAt key last) := by
  rw [get?_observeAll, h]
  rfl

theorem get?_observeAll_of_unobserved {key : Identity}
    (h : lastObservation observed key = none) :
    (observeAll py existing observed generatedAt).get? key = storedRow existing key := by
  rw [get?_observeAll, h]

/-- The runs in the dictionary are those that occur, each with its last-seen time. -/
theorem lastSeen_of_get? {key : Identity} {row : LedgerRow}
    (h : (observeAll py existing observed generatedAt).get? key = some row) :
    row.lastSeenAt.orEmpty = lastSeen existing observed generatedAt key := by
  cases hobs : lastObservation observed key with
  | some last =>
      rw [get?_observeAll_of_observed py hobs, Option.some.injEq] at h
      rw [← h, lastSeen, hobs]
      rfl
  | none =>
      rw [get?_observeAll_of_unobserved py hobs] at h
      rw [lastSeen, hobs, h]

theorem occurs_iff_get? {key : Identity} :
    Occurs existing observed key ↔
      ∃ row, (observeAll py existing observed generatedAt).get? key = some row := by
  rw [occurs_iff, ← Option.ne_none_iff_exists']
  cases hobs : lastObservation observed key with
  | some last =>
      rw [get?_observeAll_of_observed py hobs]
      simp
  | none =>
      rw [get?_observeAll_of_unobserved py hobs]
      simp

/-- A merged row of an observed run is that observation, and a run is kept by the time of the
    cycle. -/
theorem mem_merge_of_observed (hcut : cutoff py retentionDays generatedAt = .ok boundary)
    (h : merge py existing observed generatedAt retentionDays = .ok merged) {key : Identity}
    {last : SnapshotRow} (hlast : lastObservation observed key = some last) {row : LedgerRow}
    (hid : identity row.shared = key) :
    row ∈ merged ↔ row = observedRow py existing generatedAt key last ∧ boundary ≤ generatedAt := by
  rw [mem_merge_iff py hcut h, hid, get?_observeAll_of_observed py hlast, Option.some.injEq]
  constructor
  · rintro ⟨heq, hle⟩
    rw [← heq] at hle
    exact ⟨heq.symm, hle⟩
  · rintro ⟨heq, hle⟩
    rw [heq]
    exact ⟨rfl, hle⟩

/-- A merged row of an unobserved run is the stored one, and its own last-seen time keeps it. -/
theorem mem_merge_of_unobserved (hcut : cutoff py retentionDays generatedAt = .ok boundary)
    (h : merge py existing observed generatedAt retentionDays = .ok merged) {key : Identity}
    (hlast : lastObservation observed key = none) {row : LedgerRow}
    (hid : identity row.shared = key) :
    row ∈ merged ↔ storedRow existing key = some row ∧ boundary ≤ row.lastSeenAt.orEmpty := by
  rw [mem_merge_iff py hcut h, hid, get?_observeAll_of_unobserved py hlast]

/-- Every part of the specification is read off the membership of the merge. -/
theorem mergeSpec_of_merge (hcut : cutoff py retentionDays generatedAt = .ok boundary)
    (h : merge py existing observed generatedAt retentionDays = .ok merged) :
    MergeSpec py existing observed generatedAt boundary merged := by
  have hmem := mem_merge_iff py hcut h
  refine ⟨merge_increasing py h, merge_nodup py h, ?_, ?_, ?_⟩
  · intro key
    constructor
    · rintro ⟨row, hrow, rfl⟩
      obtain ⟨hget, hkept⟩ := (hmem row).mp hrow
      rw [← lastSeen_of_get? py hget]
      exact ⟨(occurs_iff_get? py).mpr ⟨row, hget⟩, hkept⟩
    · rintro ⟨hoccurs, hkept⟩
      obtain ⟨row, hget⟩ := (occurs_iff_get? py).mp hoccurs
      have hid := (identity_of_get?_observeAll py hget).1
      rw [← lastSeen_of_get? py hget] at hkept
      refine ⟨row, (hmem row).mpr ⟨?_, hkept⟩, hid⟩
      rw [hid]
      exact hget
  · intro row hrow last hlast
    have hget := ((hmem row).mp hrow).1
    rw [get?_observeAll_of_observed py hlast, Option.some.injEq] at hget
    exact hget.symm
  · intro row hrow hlast
    rw [← get?_observeAll_of_unobserved py hlast]
    exact ((hmem row).mp hrow).1

/-- One merge meets its specification on any stored ledger and any observations. -/
theorem merge_meets_spec
    (hcut : cutoff py retentionDays generatedAt = .ok boundary) :
    ∃ merged, merge py existing observed generatedAt retentionDays = .ok merged ∧
      MergeSpec py existing observed generatedAt boundary merged := by
  obtain ⟨merged, h⟩ : ∃ merged, merge py existing observed generatedAt retentionDays = .ok merged :=
    merge_of_cutoff py hcut
  exact ⟨merged, h, mergeSpec_of_merge py hcut h⟩

end Merge

end ArgoExporter.Ledger

namespace ArgoExporter.Reference

open ArgoExporter.Py

/-- The cutoff of the reference deployment is a week back. -/
theorem cutoff_instant (n : Nat) (h : n < 1000000) :
    Ledger.cutoff platform config.runRetentionDays (instant n h).text =
      .ok (weekBefore n h).text := by
  apply Ledger.cutoff_text
  simp only [instant, weekBefore, config, secondsPerDay]
  push_cast
  omega

end ArgoExporter.Reference

namespace ArgoExporter.Ledger

open ArgoExporter.Py
open ArgoExporter.ParquetIo

variable {Bytes : Type} (py : Platform Bytes)

/-- Two stored rows of one run, the second without its cluster's name, and two observations of it. -/
theorem merge_meets_spec_legacy :
    ∃ merged, merge Reference.platform
      [⟨(Reference.row "").shared, .null, .null⟩,
        ⟨{ (Reference.row "").shared with cluster := .null }, .null, .null⟩]
      [Reference.row "", Reference.row ""] (Reference.instant 0).text 7 = .ok merged ∧
      MergeSpec Reference.platform
        [⟨(Reference.row "").shared, .null, .null⟩,
          ⟨{ (Reference.row "").shared with cluster := .null }, .null, .null⟩]
        [Reference.row "", Reference.row ""] (Reference.instant 0).text
        (Reference.weekBefore 0).text merged :=
  merge_meets_spec Reference.platform (Reference.cutoff_instant 0 (by decide))

/-! ## A second merge of the same observations -/

/-- The cycle observes the run, and no stored row knows it. -/
def NewRun (existing : List LedgerRow) (observed : List SnapshotRow) (key : Identity) : Prop :=
  lastObservation observed key ≠ none ∧ storedRow existing key = none

/-- `retried`, the ledger of a cycle at `t'` after a torn one at `t`, against `direct`, the one
    without the torn cycle.  Both hold every run that was last seen since the boundary. -/
structure RetryOf (existing : List LedgerRow) (observed : List SnapshotRow) (t t' boundary : String)
    (retried direct : List LedgerRow) : Prop where
  runs : ∀ key, (∃ row ∈ retried, identity row.shared = key) ↔
    ∃ row ∈ direct, identity row.shared = key
  present : ∀ key, (∃ row ∈ direct, identity row.shared = key) ↔
    Occurs existing observed key ∧ boundary ≤ lastSeen existing observed t' key
  known : ∀ row ∈ retried, ∀ row' ∈ direct, identity row.shared = identity row'.shared →
    ¬ NewRun existing observed (identity row.shared) → row = row'
  new : ∀ row ∈ retried, ∀ row' ∈ direct, identity row.shared = identity row'.shared →
    NewRun existing observed (identity row.shared) →
      row.firstSeenAt = .str t ∧ row' = { row with firstSeenAt := .str t' }

section Retry

variable {existing torn retried direct : List LedgerRow} {observed : List SnapshotRow}
  {t t' boundary boundary' : String} {retentionDays : Int}

/-- The first-seen time of an observed run, as the second merge finds it. -/
theorem firstSeen_retry {key : Identity} {last : SnapshotRow}
    (hlast : lastObservation observed key = some last)
    (hcut : cutoff py retentionDays t = .ok boundary) (hkept : boundary ≤ t)
    (htorn : merge py existing observed t retentionDays = .ok torn) :
    firstSeen (storedRow torn key) t' = firstSeen (storedRow existing key) t := by
  have hfilter : (some (observedRow py existing t key last)).filter
      (fun row => boundary ≤ row.lastSeenAt.orEmpty) = some (observedRow py existing t key last) :=
    Option.filter_some_pos (decide_eq_true hkept)
  rw [storedRow_merge hcut htorn, get?_observeAll_of_observed py hlast, hfilter]
  rfl

/-- An observed run in the ledger of the second merge: as in a single merge, but for the time it was
    first seen. -/
theorem mem_retried_of_observed {key : Identity} {last : SnapshotRow}
    (hlast : lastObservation observed key = some last)
    (hcut : cutoff py retentionDays t = .ok boundary)
    (hcut' : cutoff py retentionDays t' = .ok boundary')
    (hkept : boundary' ≤ t' → boundary ≤ t)
    (htorn : merge py existing observed t retentionDays = .ok torn)
    (hretried : merge py torn observed t' retentionDays = .ok retried) {row : LedgerRow}
    (hid : identity row.shared = key) :
    row ∈ retried ↔ row = { observedRow py existing t' key last with
        firstSeenAt := firstSeen (storedRow existing key) t } ∧ boundary' ≤ t' := by
  rw [mem_merge_of_observed py hcut' hretried hlast hid]
  refine and_congr_left fun hle => ?_
  rw [observedRow, firstSeen_retry py hlast hcut (hkept hle) htorn, observedRow]

/-- An unobserved run in the ledger of the second merge: the later cutoff is the one that counts. -/
theorem mem_retried_of_unobserved {key : Identity} (hlast : lastObservation observed key = none)
    (hcut : cutoff py retentionDays t = .ok boundary)
    (hcut' : cutoff py retentionDays t' = .ok boundary') (hbounds : boundary ≤ boundary')
    (htorn : merge py existing observed t retentionDays = .ok torn)
    (hretried : merge py torn observed t' retentionDays = .ok retried) {row : LedgerRow}
    (hid : identity row.shared = key) :
    row ∈ retried ↔ storedRow existing key = some row ∧ boundary' ≤ row.lastSeenAt.orEmpty := by
  rw [mem_merge_of_unobserved py hcut' hretried hlast hid, storedRow_merge hcut htorn,
    get?_observeAll_of_unobserved py hlast, Option.filter_eq_some_iff, decide_eq_true_eq]
  constructor
  · rintro ⟨⟨hstored, _⟩, hle⟩
    exact ⟨hstored, hle⟩
  · rintro ⟨hstored, hle⟩
    exact ⟨⟨hstored, le_trans hbounds hle⟩, hle⟩

/-- With the cutoffs in order, a second merge changes only the first-seen time of new runs. -/
theorem retryOf_of_cutoffs (hcut : cutoff py retentionDays t = .ok boundary)
    (hcut' : cutoff py retentionDays t' = .ok boundary') (hbounds : boundary ≤ boundary')
    (hkept : boundary' ≤ t' → boundary ≤ t)
    (htorn : merge py existing observed t retentionDays = .ok torn)
    (hretried : merge py torn observed t' retentionDays = .ok retried)
    (hdirect : merge py existing observed t' retentionDays = .ok direct) :
    RetryOf existing observed t t' boundary' retried direct where
  runs := by
    intro key
    cases hlast : lastObservation observed key with
    | some last =>
        -- both rows of an observed run carry `t'` as last-seen time, so both are kept or neither
        have hself : identity (rederive py last) = key := (lastObservation_mem hlast).2.2
        have hleft {row : LedgerRow} (hid : identity row.shared = key) :=
          mem_retried_of_observed py hlast hcut hcut' hkept htorn hretried hid
        have hright {row : LedgerRow} (hid : identity row.shared = key) :=
          mem_merge_of_observed py hcut' hdirect hlast hid
        constructor
        · rintro ⟨row, hrow, hid⟩
          exact ⟨observedRow py existing t' key last,
            (hright hself).mpr ⟨rfl, ((hleft hid).mp hrow).2⟩, hself⟩
        · rintro ⟨row, hrow, hid⟩
          exact ⟨_, (hleft hself).mpr ⟨rfl, ((hright hid).mp hrow).2⟩, hself⟩
    | none =>
        refine exists_congr fun row => and_congr_left fun hid => ?_
        rw [mem_retried_of_unobserved py hlast hcut hcut' hbounds htorn hretried hid,
          mem_merge_of_unobserved py hcut' hdirect hlast hid]
  present := (mergeSpec_of_merge py hcut' hdirect).present
  known := by
    intro row hrow row' hrow' hid hknown
    cases hlast : lastObservation observed (identity row.shared) with
    | some last =>
        rw [mem_retried_of_observed py hlast hcut hcut' hkept htorn hretried rfl] at hrow
        rw [mem_merge_of_observed py hcut' hdirect hlast hid.symm] at hrow'
        rw [hrow.1, hrow'.1, observedRow]
        cases hstored : storedRow existing (identity row.shared) with
        | some stored => rfl
        | none => exact absurd ⟨by rw [hlast]; simp, hstored⟩ hknown
    | none =>
        rw [mem_retried_of_unobserved py hlast hcut hcut' hbounds htorn hretried rfl] at hrow
        rw [mem_merge_of_unobserved py hcut' hdirect hlast hid.symm, hrow.1] at hrow'
        exact Option.some.inj hrow'.1
  new := by
    intro row hrow row' hrow' hid hnew
    obtain ⟨last, hlast⟩ := Option.ne_none_iff_exists'.mp hnew.1
    rw [mem_retried_of_observed py hlast hcut hcut' hkept htorn hretried rfl, hnew.2] at hrow
    rw [mem_merge_of_observed py hcut' hdirect hlast hid.symm, observedRow, hnew.2] at hrow'
    rw [hrow'.1]
    generalize identity row.shared = key at hrow
    rw [hrow.1]
    exact ⟨rfl, rfl⟩

end Retry

/-- Lists of rows with the same members and strictly increasing sort keys are equal. -/
theorem eq_of_increasing {rows rows' : List LedgerRow}
    (h : (rows.map sortKey).Pairwise (· < ·)) (h' : (rows'.map sortKey).Pairwise (· < ·))
    (hmem : ∀ row, row ∈ rows ↔ row ∈ rows') : rows = rows' := by
  have hlt := List.pairwise_map.mp h
  have hlt' := List.pairwise_map.mp h'
  have hperm : rows.Perm rows' :=
    (List.perm_ext_iff_of_nodup (hlt.imp fun hab => ne_of_apply_ne sortKey (ne_of_lt hab))
      (hlt'.imp fun hab => ne_of_apply_ne sortKey (ne_of_lt hab))).mpr hmem
  exact hperm.eq_of_pairwise (fun a b _ _ hab hba => absurd hab (lt_asymm hba)) hlt hlt'

/-- Ledgers with the same members are equal, because both are sorted. -/
theorem merge_unique {existing existing' merged merged' : List LedgerRow}
    {observed observed' : List SnapshotRow} {t t' : String} {retentionDays : Int}
    (h : merge py existing observed t retentionDays = .ok merged)
    (h' : merge py existing' observed' t' retentionDays = .ok merged')
    (hmem : ∀ row, row ∈ merged ↔ row ∈ merged') : merged = merged' :=
  eq_of_increasing (merge_increasing py h) (merge_increasing py h') hmem

/-- Running a cycle again at the instant of its torn run gives the ledger of the first run. -/
theorem RetryOf.eq_of_same_time {existing torn retried direct : List LedgerRow}
    {observed : List SnapshotRow} {t boundary : String} {retentionDays : Int}
    (h : RetryOf existing observed t t boundary retried direct)
    (hretried : merge py torn observed t retentionDays = .ok retried)
    (hdirect : merge py existing observed t retentionDays = .ok direct) : retried = direct := by
  -- rows of one run are equal, whether the run is new or was known
  have heq : ∀ row ∈ retried, ∀ row' ∈ direct,
      identity row.shared = identity row'.shared → row = row' := by
    intro row hrow row' hrow' hid
    by_cases hnew : NewRun existing observed (identity row.shared)
    · obtain ⟨hfirst, hrow'⟩ := h.new row hrow row' hrow' hid hnew
      rw [hrow', ← hfirst]
    · exact h.known row hrow row' hrow' hid hnew
  apply merge_unique py hretried hdirect
  intro row
  constructor
  · intro hrow
    obtain ⟨row', hrow', hid⟩ := (h.runs _).mp ⟨row, hrow, rfl⟩
    rw [heq row hrow row' hrow' hid.symm]
    exact hrow'
  · intro hrow
    obtain ⟨row', hrow', hid⟩ := (h.runs _).mpr ⟨row, hrow, rfl⟩
    rw [← heq row' hrow' row hrow hid]
    exact hrow'

/-- An observed run with a uid is in the ledgers of both cycles, if the boundary is not after the
    second one. -/
theorem RetryOf.observed_present {existing retried direct : List LedgerRow}
    {observed : List SnapshotRow} {t t' boundary : String}
    (h : RetryOf existing observed t t' boundary retried direct) (hkept : boundary ≤ t')
    {row : SnapshotRow} (hrow : row ∈ observed) (huid : row.shared.uid.truthy = true) :
    (∃ row' ∈ retried, identity row'.shared = identity row.shared) ∧
      ∃ row' ∈ direct, identity row'.shared = identity row.shared := by
  have hlast : lastObservation observed (identity row.shared) ≠ none := fun hnone =>
    lastObservation_eq_none_iff.mp hnone row hrow huid rfl
  obtain ⟨last, hlast⟩ := Option.ne_none_iff_exists'.mp hlast
  have hseen : lastSeen existing observed t' (identity row.shared) = t' := by
    rw [lastSeen, hlast]
  have hdirect := (h.present (identity row.shared)).mpr
    ⟨Or.inr ⟨row, hrow, huid, rfl⟩, by rw [hseen]; exact hkept⟩
  exact ⟨(h.runs _).mpr hdirect, hdirect⟩

/-- A cycle after a torn one leaves the ledger it would have left without it, but for the time at
    which new runs were first seen, with every run observed in it; at the same instant it leaves the
    same ledger. -/
theorem retry_changes_first_seen_only (existing : List LedgerRow) (observed : List SnapshotRow)
    {t t' c c' : Stamp} {retentionDays : Int} (hle : t.secs ≤ t'.secs)
    (hc : (t.secs : Int) - retentionDays * secondsPerDay = c.secs)
    (hc' : (t'.secs : Int) - retentionDays * secondsPerDay = c'.secs) :
    ∃ torn retried direct, merge py existing observed t.text retentionDays = .ok torn ∧
      merge py torn observed t'.text retentionDays = .ok retried ∧
      merge py existing observed t'.text retentionDays = .ok direct ∧
      RetryOf existing observed t.text t'.text c'.text retried direct ∧
      (0 ≤ retentionDays → ∀ row ∈ observed, row.shared.uid.truthy = true →
        (∃ row' ∈ retried, identity row'.shared = identity row.shared) ∧
          ∃ row' ∈ direct, identity row'.shared = identity row.shared) ∧
      (t = t' → retried = torn) := by
  have hcut := cutoff_text py hc
  have hcut' := cutoff_text py hc'
  have hbounds : c.text ≤ c'.text := (Stamp.text_le_text c c').mpr (by omega)
  -- each cutoff is as far behind its cycle as the other
  have hkept : c'.text ≤ t'.text → c.text ≤ t.text := by
    rw [Stamp.text_le_text, Stamp.text_le_text]
    omega
  obtain ⟨torn, htorn⟩ : ∃ torn, merge py existing observed t.text retentionDays = .ok torn :=
    merge_of_cutoff py hcut
  obtain ⟨retried, hretried⟩ : ∃ retried, merge py torn observed t'.text retentionDays =
      .ok retried := merge_of_cutoff py hcut'
  obtain ⟨direct, hdirect⟩ : ∃ direct, merge py existing observed t'.text retentionDays =
      .ok direct := merge_of_cutoff py hcut'
  have hretry := retryOf_of_cutoffs py hcut hcut' hbounds hkept htorn hretried hdirect
  refine ⟨torn, retried, direct, htorn, hretried, hdirect, hretry, fun hretention row hrow huid => ?_,
    ?_⟩
  · refine hretry.observed_present ((Stamp.text_le_text c' t').mpr ?_) hrow huid
    have hperiod := Int.mul_nonneg hretention (Int.natCast_nonneg secondsPerDay)
    omega
  rintro rfl
  rw [htorn, Except.ok.injEq] at hdirect
  rw [← hdirect] at hretry
  exact hretry.eq_of_same_time py hretried htorn

/-- A run first seen in a torn cycle, and observed again by the cycle one minute later. -/
theorem retry_changes_first_seen_only_reference :
    ∃ torn retried direct, merge Reference.platform [] [Reference.row ""]
        (Reference.instant 0).text 7 = .ok torn ∧
      merge Reference.platform torn [Reference.row ""] (Reference.instant 61).text 7 =
        .ok retried ∧
      merge Reference.platform [] [Reference.row ""] (Reference.instant 61).text 7 = .ok direct ∧
      RetryOf [] [Reference.row ""] (Reference.instant 0).text (Reference.instant 61).text
        (Reference.weekBefore 61).text retried direct ∧
      ∃ row ∈ retried, identity row.shared = identity (Reference.row "").shared := by
  have hc : ((Reference.instant 0).secs : Int) - 7 * secondsPerDay =
      (Reference.weekBefore 0).secs := by decide
  have hc' : ((Reference.instant 61).secs : Int) - 7 * secondsPerDay =
      (Reference.weekBefore 61).secs := by decide
  obtain ⟨torn, retried, direct, htorn, hretried, hdirect, hretry, hobserved, _⟩ :=
    retry_changes_first_seen_only Reference.platform [] [Reference.row ""] (by decide) hc hc'
  exact ⟨torn, retried, direct, htorn, hretried, hdirect, hretry,
    (hobserved (by decide) _ List.mem_cons_self rfl).1⟩

end ArgoExporter.Ledger
