/-
  ArgoExporter.Ledger

  `ledger.py`: merging one cycle's observations into the stored run ledger and
  trimming it to the retention window.  A run's identity is its cluster and
  uid; the cells it is made of are strings or null, because stored rows have
  been cast to their schema and observed rows have been validated.
-/

import ArgoExporter.FailureTaxonomy
import ArgoExporter.Lib.OrderedDict
import ArgoExporter.ParquetIo
import ArgoExporter.Py.Stamp
import Mathlib.Data.List.Sort
import Mathlib.Data.Prod.Lex

namespace ArgoExporter.Ledger

open ArgoExporter.Lib
open ArgoExporter.Py
open ArgoExporter.ParquetIo

/-! ## Retention boundary -/

/-- Largest magnitude of a `timedelta`, in days. -/
def maxTimedeltaDays : Nat := 999999999

/-- `timedelta(days=…)`, in microseconds. -/
def timedeltaDays (days : Int) : Except Exc Int :=
  if days.natAbs ≤ maxTimedeltaDays then .ok (days * microsPerDay)
  else if -2 ^ 31 ≤ days ∧ days < 2 ^ 31 then
    raise .overflowError s!"days={days}; must have magnitude <= 999999999"
  else raise .overflowError "Python int too large to convert to C int"

variable {Bytes : Type} (py : Platform Bytes)

/-- The oldest `last_seen_at` that is kept. -/
def cutoff (retentionDays : Int) (generatedAt : String) : Except Exc String :=
  match strptime generatedAt with
  | none =>
      raise .valueError (s!"time data {py.repr (.str generatedAt)} does not match format " ++
        "'%Y-%m-%dT%H:%M:%SZ'")
  | some cycleTime => do
      let delta ← timedeltaDays retentionDays
      match Naive.ofMicros? (cycleTime.micros - delta) with
      | some boundary => return strftime boundary
      | none => raise .overflowError "date value out of range"

/-! ## Merging -/

/-- Cluster and uid of a run. -/
abbrev Identity := String × String

def identity (row : SharedColumns) : Identity := (row.cluster.orEmpty, row.uid.orEmpty)

/-- The stored rows by identity; a row without a uid is left out. -/
def byKey (existing : List LedgerRow) : OrderedDict Identity LedgerRow :=
  OrderedDict.empty.setAll
    ((existing.filter fun row => row.shared.uid.truthy).map fun row => (identity row.shared, row))

/-- The shared columns of an observation with the taxonomy derived again. -/
def rederive (observed : SnapshotRow) : SharedColumns :=
  let taxonomy := FailureTaxonomy.failureColumns py observed.shared.failedStepMessage
    observed.shared.message
  { observed.shared with
    failureFingerprint := taxonomy.failureFingerprint
    failureClass := taxonomy.failureClass }

/-- First-seen time of a run: the stored one, or the time of this cycle. -/
def firstSeen (previous : Option LedgerRow) (generatedAt : String) : Json :=
  match previous with
  | some row => row.firstSeenAt
  | none => .str generatedAt

/-- One observation; a row without a uid is skipped. -/
def observe (generatedAt : String) (rows : OrderedDict Identity LedgerRow)
    (observed : SnapshotRow) : OrderedDict Identity LedgerRow :=
  if observed.shared.uid.truthy then
    let key := identity observed.shared
    rows.set key
      ⟨rederive py observed, firstSeen (rows.get? key) generatedAt, .str generatedAt⟩
  else rows

/-- Order of the written rows. -/
def sortKey (row : LedgerRow) : String ×ₗ String ×ₗ String :=
  toLex (row.firstSeenAt.orEmpty, toLex (identity row.shared))

/-- The rows by identity after all observations of a cycle. -/
def observeAll (existing : List LedgerRow) (observed : List SnapshotRow) (generatedAt : String) :
    OrderedDict Identity LedgerRow :=
  observed.foldl (observe py generatedAt) (byKey existing)

def merge (existing : List LedgerRow) (observed : List SnapshotRow) (generatedAt : String)
    (retentionDays : Int) : Except Exc (List LedgerRow) := do
  let rows := observeAll py existing observed generatedAt
  let boundary ← cutoff py retentionDays generatedAt
  let kept := rows.values.filter fun row => boundary ≤ row.lastSeenAt.orEmpty
  return kept.insertionSort fun a b => sortKey a ≤ sortKey b

/-! ## What a merge holds -/

/-- The observation of a run that counts in one cycle: the last one with its identity. -/
def lastObservation (observed : List SnapshotRow) (key : Identity) : Option SnapshotRow :=
  (observed.filter fun row => row.shared.uid.truthy ∧ identity row.shared = key).getLast?

/-- The stored row of a run, the last one with its identity. -/
def storedRow (existing : List LedgerRow) (key : Identity) : Option LedgerRow :=
  (existing.filter fun row => row.shared.uid.truthy ∧ identity row.shared = key).getLast?

theorem get?_byKey (existing : List LedgerRow) (key : Identity) :
    (byKey existing).get? key = storedRow existing key := by
  rw [byKey, OrderedDict.get?_setAll, OrderedDict.get?_empty, Option.or_none, List.filter_map,
    List.getLast?_map, Option.map_map, List.filter_filter]
  have hid : (Prod.snd ∘ fun row : LedgerRow => (identity row.shared, row)) = id := rfl
  rw [hid, Option.map_id_apply, storedRow]
  congr 2
  funext row
  simp only [Function.comp_apply, Bool.decide_and, Bool.decide_eq_true]
  exact Bool.and_comm _ _

theorem identity_rederive (observed : SnapshotRow) :
    identity (rederive py observed) = identity observed.shared := rfl

theorem lastObservation_concat (observed : List SnapshotRow) (row : SnapshotRow) (key : Identity) :
    lastObservation (observed ++ [row]) key =
      if row.shared.uid.truthy ∧ identity row.shared = key then some row
      else lastObservation observed key := by
  unfold lastObservation
  rw [List.filter_append]
  by_cases h : row.shared.uid.truthy ∧ identity row.shared = key
  · rw [if_pos h, List.filter_cons_of_pos (by simpa using h), List.filter_nil,
      List.getLast?_append, List.getLast?_singleton]
    rfl
  · rw [if_neg h, List.filter_cons_of_neg (by simpa using h), List.filter_nil, List.append_nil]

/-- One observation touches its own run only. -/
theorem get?_observe (generatedAt : String) (rows : OrderedDict Identity LedgerRow)
    (row : SnapshotRow) (key : Identity) :
    (observe py generatedAt rows row).get? key =
      if row.shared.uid.truthy ∧ identity row.shared = key then
        some ⟨rederive py row, firstSeen (rows.get? key) generatedAt, .str generatedAt⟩
      else rows.get? key := by
  unfold observe
  by_cases ht : row.shared.uid.truthy = true
  · rw [if_pos ht, OrderedDict.get?_set]
    by_cases hk : identity row.shared = key
    · rw [if_pos hk.symm, if_pos ⟨ht, hk⟩, hk]
    · rw [if_neg (Ne.symm hk), if_neg fun h => hk h.2]
  · rw [if_neg ht, if_neg fun h => ht h.1]

/-- After a cycle an observed run holds its last observation and the first-seen time it had before
    the cycle; a run that was not observed is as it was stored. -/
theorem get?_observeAll (existing : List LedgerRow) (observed : List SnapshotRow)
    (generatedAt : String) (key : Identity) :
    (observeAll py existing observed generatedAt).get? key =
      match lastObservation observed key with
      | some row =>
          some ⟨rederive py row, firstSeen (storedRow existing key) generatedAt, .str generatedAt⟩
      | none => storedRow existing key := by
  induction observed using List.reverseRecOn with
  | nil => exact get?_byKey existing key
  | append_singleton observed row ih =>
      rw [observeAll, List.foldl_append, List.foldl_cons, List.foldl_nil, get?_observe,
        lastObservation_concat]
      by_cases h : row.shared.uid.truthy ∧ identity row.shared = key
      · rw [if_pos h, if_pos h]
        -- an earlier observation of the run carries the same first sighting
        have hfirst : firstSeen ((observeAll py existing observed generatedAt).get? key) generatedAt =
            firstSeen (storedRow existing key) generatedAt := by
          rw [ih]
          cases lastObservation observed key with
          | none => rfl
          | some row' =>
              cases storedRow existing key with
              | none => rfl
              | some stored => rfl
        rw [← observeAll, hfirst]
      · rw [if_neg h, if_neg h]
        exact ih

theorem storedRow_mem {existing : List LedgerRow} {key : Identity} {row : LedgerRow}
    (h : storedRow existing key = some row) :
    row ∈ existing ∧ row.shared.uid.truthy = true ∧ identity row.shared = key := by
  have hmem := List.mem_of_getLast? h
  rw [List.mem_filter] at hmem
  exact ⟨hmem.1, by simpa using hmem.2⟩

theorem lastObservation_mem {observed : List SnapshotRow} {key : Identity} {row : SnapshotRow}
    (h : lastObservation observed key = some row) :
    row ∈ observed ∧ row.shared.uid.truthy = true ∧ identity row.shared = key := by
  have hmem := List.mem_of_getLast? h
  rw [List.mem_filter] at hmem
  exact ⟨hmem.1, by simpa using hmem.2⟩

/-- Every row is held under its own identity. -/
theorem identity_of_get?_observeAll {existing : List LedgerRow} {observed : List SnapshotRow}
    {generatedAt : String} {key : Identity} {row : LedgerRow}
    (h : (observeAll py existing observed generatedAt).get? key = some row) :
    identity row.shared = key ∧ row.shared.uid.truthy = true := by
  rw [get?_observeAll] at h
  cases hobs : lastObservation observed key with
  | some o =>
      rw [hobs, Option.some.injEq] at h
      obtain ⟨_, ht, hk⟩ := lastObservation_mem hobs
      rw [← h]
      exact ⟨hk, ht⟩
  | none =>
      rw [hobs] at h
      obtain ⟨_, ht, hk⟩ := storedRow_mem h
      exact ⟨hk, ht⟩

section Merged

variable {existing merged : List LedgerRow} {observed : List SnapshotRow} {generatedAt : String}
  {retentionDays : Int}

/-- A merge fails only in the computation of its cutoff. -/
theorem merge_eq_ok (h : merge py existing observed generatedAt retentionDays = .ok merged) :
    ∃ boundary, cutoff py retentionDays generatedAt = .ok boundary ∧
      merged.Perm ((observeAll py existing observed generatedAt).values.filter
        fun row => boundary ≤ row.lastSeenAt.orEmpty) := by
  obtain ⟨boundary, hcut, hret⟩ := bind_eq_ok.mp h
  refine ⟨boundary, hcut, ?_⟩
  rw [← Except.ok.inj hret]
  exact List.perm_insertionSort _ _

theorem merge_of_cutoff {boundary : String}
    (h : cutoff py retentionDays generatedAt = .ok boundary) :
    ∃ merged, merge py existing observed generatedAt retentionDays = .ok merged := by
  unfold merge
  rw [h]
  exact ⟨_, rfl⟩

theorem merge_of_cutoff_error {e : Exc} (h : cutoff py retentionDays generatedAt = .error e) :
    merge py existing observed generatedAt retentionDays = .error e := by
  unfold merge
  rw [h]
  rfl

/-- The merged rows, one per run held after the cycle and seen since the cutoff. -/
theorem mem_merge_iff {boundary : String} (hcut : cutoff py retentionDays generatedAt = .ok boundary)
    (h : merge py existing observed generatedAt retentionDays = .ok merged) (row : LedgerRow) :
    row ∈ merged ↔
      (observeAll py existing observed generatedAt).get? (identity row.shared) = some row ∧
        boundary ≤ row.lastSeenAt.orEmpty := by
  obtain ⟨boundary', hcut', hperm⟩ := merge_eq_ok py h
  rw [hcut, Except.ok.injEq] at hcut'
  subst hcut'
  rw [hperm.mem_iff, List.mem_filter, OrderedDict.mem_values_iff, decide_eq_true_eq]
  refine and_congr_left fun _ => ⟨?_, fun hget => ⟨_, hget⟩⟩
  rintro ⟨key, hget⟩
  rw [(identity_of_get?_observeAll py hget).1]
  exact hget

/-- No two merged rows share an identity. -/
theorem merge_nodup (h : merge py existing observed generatedAt retentionDays = .ok merged) :
    (merged.map fun row => identity row.shared).Nodup := by
  obtain ⟨boundary, _, hperm⟩ := merge_eq_ok py h
  rw [(hperm.map _).nodup_iff]
  refine List.Nodup.sublist (List.filter_sublist.map _) ?_
  have hkeys : (observeAll py existing observed generatedAt).values.map
      (fun row => identity row.shared) =
      (observeAll py existing observed generatedAt).keys := by
    rw [OrderedDict.values, OrderedDict.keys, List.map_map]
    apply List.map_congr_left
    rintro ⟨key, row⟩ hmem
    exact (identity_of_get?_observeAll py ((OrderedDict.get?_eq_some_iff _ _ _).mpr hmem)).1
  rw [hkeys]
  exact OrderedDict.nodupKeys _

end Merged

/-! ## Cutoffs of canonical times -/

theorem cutoff_of_parts {generatedAt : String} {retentionDays delta : Int} {t boundary : Naive}
    (ht : strptime generatedAt = some t) (hdelta : timedeltaDays retentionDays = .ok delta)
    (hb : Naive.ofMicros? (t.micros - delta) = some boundary) :
    cutoff py retentionDays generatedAt = .ok (strftime boundary) := by
  simp only [cutoff, ht, hdelta, ok_bind, hb, pure_eq_ok]

theorem parts_of_cutoff {generatedAt boundary : String} {retentionDays : Int} {t : Naive}
    (ht : strptime generatedAt = some t)
    (h : cutoff py retentionDays generatedAt = .ok boundary) :
    ∃ delta b, timedeltaDays retentionDays = .ok delta ∧
      Naive.ofMicros? (t.micros - delta) = some b ∧ boundary = strftime b := by
  simp only [cutoff, ht] at h
  obtain ⟨delta, hdelta, h⟩ := bind_eq_ok.mp h
  cases hb : Naive.ofMicros? (t.micros - delta) with
  | none =>
      rw [hb] at h
      exact absurd h (by simp)
  | some b =>
      rw [hb] at h
      exact ⟨delta, b, hdelta, hb, (Except.ok.inj h).symm⟩

theorem timedeltaDays_eq_ok {days delta : Int} (h : timedeltaDays days = .ok delta) :
    delta = days * microsPerDay := by
  unfold timedeltaDays at h
  split_ifs at h with hmax hint
  · exact (Except.ok.inj h).symm
  · exact absurd h (by simp)
  · exact absurd h (by simp)

theorem micros_naive (t : Stamp) : t.naive.micros = t.secs * microsPerSecond := rfl

/-- On canonical times the cutoff is the text of the instant `retentionDays` earlier. -/
theorem cutoff_text {t c : Stamp} {retentionDays : Int}
    (h : (t.secs : Int) - retentionDays * secondsPerDay = c.secs) :
    cutoff py retentionDays t.text = .ok c.text := by
  have ht := t.upper
  have ht' := t.lower
  have hc := c.upper
  have hc' := c.lower
  unfold stampMin stampMax at *
  unfold secondsPerDay at h
  have hdays : retentionDays.natAbs ≤ maxTimedeltaDays := by
    unfold maxTimedeltaDays
    omega
  -- the subtraction stays on whole seconds, as the stamps do
  have hmicros : (t.naive.micros : Int) - retentionDays * microsPerDay = c.naive.micros := by
    rw [micros_naive, micros_naive]
    unfold microsPerDay microsPerSecond
    omega
  rw [Stamp.text]
  exact cutoff_of_parts py t.strptime_text (if_pos hdays)
    (Naive.ofMicros?_eq_some_iff.mpr hmicros.symm)

/-- Comparing a canonical last-seen text with the cutoff compares the instants. -/
theorem text_ge_cutoff_iff {t c s : Stamp} {retentionDays : Int}
    (h : (t.secs : Int) - retentionDays * secondsPerDay = c.secs) :
    c.text ≤ s.text ↔ (t.secs : Int) - retentionDays * secondsPerDay ≤ s.secs := by
  rw [Stamp.text_le_text, h]
  omega

end ArgoExporter.Ledger
