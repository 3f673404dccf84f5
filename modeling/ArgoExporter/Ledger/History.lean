/-
  ArgoExporter.Ledger.History

  The stored ledger as a function of its history: per run, the merges of a
  sequence of cycles act as a register that expires after the retention
  period.  `LedgerInv` is what every merge keeps.
-/

import ArgoExporter.Ledger.Merged
import ArgoExporter.Lib.ExpiringRegister

namespace ArgoExporter.Ledger

open ArgoExporter.Lib
open ArgoExporter.Lib.ExpiringRegister
open ArgoExporter.Py
open ArgoExporter.ParquetIo
open ArgoExporter.Workflows

/-! ## Histories -/

/-- A cycle that wrote the ledger: its time and the rows it observed. -/
structure Visit where
  time : Stamp
  rows : List SnapshotRow

/-- What visit `i` observed of a run. -/
def observation (history : List Visit) (key : Identity) (i : Nat) : Option SnapshotRow :=
  history[i]?.bind fun visit => lastObservation visit.rows key

/-- Seconds at visit `i`. -/
def secondsAt (history : List Visit) (i : Nat) : Int :=
  (history[i]?.map fun visit => (visit.time.secs : Int)).getD 0

/-- Text of the time of visit `i`. -/
def textAt (history : List Visit) (i : Nat) : Json :=
  (history[i]?.map fun visit => Json.str visit.time.text).getD .null

/-- The time of visit `a` is not before the cutoff of visit `i`. -/
def Within (retentionDays : Int) (history : List Visit) (a i : Nat) : Prop :=
  secondsAt history i - retentionDays * secondsPerDay ≤ secondsAt history a

instance (retentionDays : Int) (history : List Visit) :
    DecidableRel (Within retentionDays history) :=
  fun a i => inferInstanceAs
    (Decidable (secondsAt history i - retentionDays * secondsPerDay ≤ secondsAt history a))

/-- The register of a run after the whole history. -/
def held (retentionDays : Int) (history : List Visit) (key : Identity) :
    Option (Entry SnapshotRow) :=
  run (Within retentionDays history) (observation history key) history.length

/-- The ledger row of a register entry. -/
def render (history : List Visit) (entry : Entry SnapshotRow) : LedgerRow :=
  ⟨entry.value.shared, textAt history entry.first, textAt history entry.last⟩

/-- The stored rows are, run by run, the registers of the history. -/
structure LedgerInv (retentionDays : Int) (history : List Visit) (rows : List LedgerRow) :
    Prop where
  nodup : (rows.map fun row => identity row.shared).Nodup
  named : ∀ row ∈ rows, row.shared.uid.truthy = true
  stored : ∀ key, storedRow rows key = (held retentionDays history key).map (render history)

theorem ledgerInv_nil (retentionDays : Int) : LedgerInv retentionDays [] [] :=
  ⟨List.nodup_nil, by simp, fun _ => rfl⟩

section Visits

variable {history : List Visit} {i : Nat} (hi : i < history.length)
include hi

theorem secondsAt_eq : secondsAt history i = history[i].time.secs := by
  rw [secondsAt, List.getElem?_eq_getElem hi, Option.map_some, Option.getD_some]

theorem textAt_eq : textAt history i = .str history[i].time.text := by
  rw [textAt, List.getElem?_eq_getElem hi, Option.map_some, Option.getD_some]

end Visits

/-! ## One more visit -/

section Append

variable (history : List Visit) (visit : Visit)

@[simp] theorem observation_length (key : Identity) :
    observation (history ++ [visit]) key history.length = lastObservation visit.rows key := by
  rw [observation, List.getElem?_concat_length, Option.bind_some]

@[simp] theorem secondsAt_length :
    secondsAt (history ++ [visit]) history.length = visit.time.secs := by
  rw [secondsAt, List.getElem?_concat_length, Option.map_some, Option.getD_some]

@[simp] theorem textAt_length :
    textAt (history ++ [visit]) history.length = .str visit.time.text := by
  rw [textAt, List.getElem?_concat_length, Option.map_some, Option.getD_some]

variable {history} {i : Nat} (hi : i < history.length)
include hi

theorem observation_append (key : Identity) :
    observation (history ++ [visit]) key i = observation history key i := by
  rw [observation, List.getElem?_append_left hi, observation]

theorem secondsAt_append : secondsAt (history ++ [visit]) i = secondsAt history i := by
  rw [secondsAt, List.getElem?_append_left hi, secondsAt]

theorem textAt_append : textAt (history ++ [visit]) i = textAt history i := by
  rw [textAt, List.getElem?_append_left hi, textAt]

end Append

/-- A new visit does not change what the register went through before it. -/
theorem run_append (retentionDays : Int) (history : List Visit) (visit : Visit) (key : Identity) :
    run (Within retentionDays (history ++ [visit])) (observation (history ++ [visit]) key)
      history.length = held retentionDays history key := by
  refine run_congr (fun i hi => observation_append visit hi key) fun a i ha hi => ?_
  unfold Within
  rw [secondsAt_append visit hi, secondsAt_append visit (Nat.lt_trans ha hi)]

/-- A visit that observes a run writes its register. -/
theorem held_append_of_observed {retentionDays : Int} {history : List Visit} {visit : Visit}
    {key : Identity} {row : SnapshotRow} (h : lastObservation visit.rows key = some row) :
    held retentionDays (history ++ [visit]) key =
      some ⟨row, ((held retentionDays history key).map Entry.first).getD history.length,
        history.length⟩ := by
  have hwrite : observation (history ++ [visit]) key history.length = some row := by
    rw [observation_length, h]
  rw [held, List.length_append, List.length_singleton, run_succ_of_write hwrite, run_append]

/-- A visit that does not observe a run keeps its register or drops it. -/
theorem held_append_of_unobserved {retentionDays : Int} {history : List Visit} {visit : Visit}
    {key : Identity} (h : lastObservation visit.rows key = none) :
    held retentionDays (history ++ [visit]) key =
      (held retentionDays history key).filter fun entry =>
        Within retentionDays (history ++ [visit]) entry.last history.length := by
  have hsilent : observation (history ++ [visit]) key history.length = none := by
    rw [observation_length, h]
  rw [held, List.length_append, List.length_singleton, run_succ_of_silent hsilent, run_append]

theorem render_append {history : List Visit} {entry : Entry SnapshotRow} (visit : Visit)
    (hfirst : entry.first < history.length) (hlast : entry.last < history.length) :
    render (history ++ [visit]) entry = render history entry := by
  rw [render, textAt_append visit hfirst, textAt_append visit hlast, render]

/-! ## One merge -/

section Merge

variable {Bytes : Type} {py : Platform Bytes} {retentionDays : Int} {history : List Visit}
  {visit : Visit} {existing merged : List LedgerRow}

/-- A run that the visit observed has its last observation, and the first-seen time it had. -/
theorem stored_of_observed {boundary : String}
    (h : LedgerInv retentionDays history existing)
    (hcut : cutoff py retentionDays visit.time.text = .ok boundary)
    (hle : boundary ≤ visit.time.text)
    (hmerge : merge py existing visit.rows visit.time.text retentionDays = .ok merged)
    {key : Identity} {row : SnapshotRow} (hrow : lastObservation visit.rows key = some row)
    (hsettled : rederive py row = row.shared) :
    storedRow merged key =
      (held retentionDays (history ++ [visit]) key).map (render (history ++ [visit])) := by
  rw [storedRow_merge hcut hmerge, get?_observeAll, hrow, held_append_of_observed hrow]
  dsimp only
  rw [hsettled, Option.filter_some, Json.orEmpty_str, if_pos (decide_eq_true hle),
    Option.map_some, Option.some.injEq, render, textAt_length, h.stored key]
  refine LedgerRow.ext rfl ?_ rfl
  cases hheld : held retentionDays history key with
  | none => exact (textAt_length history visit).symm
  | some entry => exact (textAt_append visit (lt_of_run hheld).1).symm

/-- A run that the visit did not observe stays as it was, or is trimmed. -/
theorem stored_of_unobserved {c : Stamp} (h : LedgerInv retentionDays history existing)
    (hc : (visit.time.secs : Int) - retentionDays * secondsPerDay = c.secs)
    (hmerge : merge py existing visit.rows visit.time.text retentionDays = .ok merged)
    {key : Identity} (hrow : lastObservation visit.rows key = none) :
    storedRow merged key =
      (held retentionDays (history ++ [visit]) key).map (render (history ++ [visit])) := by
  rw [storedRow_merge (cutoff_text py hc) hmerge, get?_observeAll, hrow,
    held_append_of_unobserved hrow]
  dsimp only
  rw [h.stored key]
  cases hheld : held retentionDays history key with
  | none => rfl
  | some entry =>
      obtain ⟨hfirst, hlast⟩ := lt_of_run hheld
      -- the text comparison with the cutoff is the comparison of seconds
      have hkept : c.text ≤ (render history entry).lastSeenAt.orEmpty ↔
          Within retentionDays (history ++ [visit]) entry.last history.length := by
        rw [render, textAt_eq hlast, Json.orEmpty_str, text_ge_cutoff_iff hc, Within,
          secondsAt_length, secondsAt_append visit hlast, secondsAt_eq hlast]
      rw [Option.map_some, Option.filter_some, Option.filter_some]
      by_cases hwithin : Within retentionDays (history ++ [visit]) entry.last history.length
      · rw [if_pos (decide_eq_true (hkept.mpr hwithin)), if_pos (decide_eq_true hwithin),
          Option.map_some, render_append visit hfirst hlast]
      · rw [if_neg (by simpa using mt hkept.mp hwithin), if_neg (by simpa using hwithin),
          Option.map_none]

/-- A merge turns the registers of a history into those of the history with its visit. -/
theorem ledgerInv_merge {c : Stamp} (h : LedgerInv retentionDays history existing)
    (hretention : 0 ≤ retentionDays)
    (hc : (visit.time.secs : Int) - retentionDays * secondsPerDay = c.secs)
    (hsettled : ∀ row ∈ visit.rows, rederive py row = row.shared)
    (hmerge : merge py existing visit.rows visit.time.text retentionDays = .ok merged) :
    LedgerInv retentionDays (history ++ [visit]) merged := by
  refine ⟨merge_nodup py hmerge, named_merge hmerge, fun key => ?_⟩
  cases hrow : lastObservation visit.rows key with
  | some row =>
      -- retention is not negative, so the visit is not before its own cutoff
      have hle : c.text ≤ visit.time.text := by
        rw [Stamp.text_le_text]
        have := Int.mul_nonneg hretention (Int.natCast_nonneg secondsPerDay)
        omega
      exact stored_of_observed h (cutoff_text py hc) hle hmerge hrow
        (hsettled row (lastObservation_mem hrow).1)
  | none => exact stored_of_unobserved h hc hmerge hrow

end Merge

/-! ## What the ledger says about its history -/

/-- The ledger of a history: one row for every run whose last observation is within the retention
    period of the last visit, with the columns of that observation, first seen at the start of its
    unbroken series, and no other row. -/
structure RecordsHistory (retentionDays : Int) (history : List Visit) (rows : List LedgerRow) :
    Prop where
  kept : ∀ key a row, IsLast (observation history key) history.length a row →
    Within retentionDays history a (history.length - 1) →
    ∃ j, IsStart (Within retentionDays history) (observation history key) history.length j ∧
      rows.filter (fun r => identity r.shared = key) =
        [⟨row.shared, textAt history j, textAt history a⟩]
  only : ∀ row ∈ rows, ∃ a observed,
    IsLast (observation history (identity row.shared)) history.length a observed ∧
      Within retentionDays history a (history.length - 1)

section Sorted

variable {retentionDays : Int} {history : List Visit}

theorem within_self (hretention : 0 ≤ retentionDays) (n : Nat) :
    Within retentionDays history n n := by
  have := Int.mul_nonneg hretention (Int.natCast_nonneg secondsPerDay)
  unfold Within
  omega

/-- In a history in order, what a visit keeps was kept by the visits before it. -/
theorem Within.anti (hsorted : (history.map fun visit => visit.time.secs).Pairwise (· ≤ ·))
    {a i m : Nat} (him : i ≤ m) (hm : m < history.length)
    (h : Within retentionDays history a m) : Within retentionDays history a i := by
  have hle : secondsAt history i ≤ secondsAt history m := by
    rcases Nat.lt_or_eq_of_le him with hlt | rfl
    · have hi : i < history.length := Nat.lt_trans hlt hm
      have hpair := List.pairwise_iff_getElem.mp hsorted i m (by simpa using hi) (by simpa using hm)
        hlt
      rw [List.getElem_map, List.getElem_map] at hpair
      rw [secondsAt_eq hi, secondsAt_eq hm]
      exact_mod_cast hpair
    · exact Int.le_refl _
  unfold Within at *
  omega

/-- The registers of a history in order are what the history says. -/
theorem recordsHistory_of_inv {rows : List LedgerRow} (h : LedgerInv retentionDays history rows)
    (hretention : 0 ≤ retentionDays)
    (hsorted : (history.map fun visit => visit.time.secs).Pairwise (· ≤ ·)) :
    RecordsHistory retentionDays history rows := by
  have hself : ∀ n, Within retentionDays history n n := within_self hretention
  -- visits are ordered, so being within retention lasts for an interval
  have hanti : ∀ a i m, a ≤ i → i ≤ m → m < history.length →
      Within retentionDays history a m → Within retentionDays history a i :=
    fun a i m _ him hm => Within.anti hsorted him hm
  constructor
  · intro key a row hlast hkept
    obtain ⟨j, hstart⟩ := exists_isStart hself hanti (Nat.le_refl _) hlast hkept
    refine ⟨j, hstart, ?_⟩
    have hheld : held retentionDays history key = some ⟨row, j, a⟩ :=
      (run_eq_some_iff hself hanti (Nat.le_refl _)).mpr ⟨hlast, hkept, hstart⟩
    have hstored := h.stored key
    rw [hheld] at hstored
    obtain ⟨hmem, _, hkey⟩ := storedRow_mem hstored
    rw [← hkey]
    exact filter_key_eq_singleton (f := fun r : LedgerRow => identity r.shared) h.nodup hmem
  · intro row hrow
    have hstored := (storedRow_eq_some_iff h.nodup).mpr ⟨hrow, h.named row hrow, rfl⟩
    rw [h.stored, Option.map_eq_some_iff] at hstored
    obtain ⟨entry, hheld, _⟩ := hstored
    obtain ⟨hlast, hkept, _⟩ := (run_eq_some_iff hself hanti (Nat.le_refl _)).mp hheld
    exact ⟨entry.last, entry.value, hlast, hkept⟩

end Sorted

end ArgoExporter.Ledger
