/-
  ArgoExporter.PollLoop.LedgerSize

  How large the ledger can get.  A run stays in it for the retention period
  after it was last listed, and no two listings are closer than the poll
  interval, so the number of rows has a bound that does not grow with the loop.
-/

import ArgoExporter.Main.LedgerHistory
import ArgoExporter.PollLoop.Freshness

namespace ArgoExporter.Main

open ArgoExporter.Lib
open ArgoExporter.Py
open ArgoExporter.ParquetIo
open ArgoExporter.S3io
open ArgoExporter.Ledger (Visit LedgerInv Within secondsAt observation identity)

variable {Bytes : Type} {py : Platform Bytes} {cfg : Config}

/-! ## The visits that count -/

/-- The visits within the retention period of the last one. -/
def liveVisits (retentionDays : Int) (history : List Visit) : List Visit :=
  history.filter fun visit =>
    secondsAt history (history.length - 1) - retentionDays * secondsPerDay ≤ visit.time.secs

/-- Every stored run was observed by a live visit. -/
theorem observed_of_stored {retentionDays : Int} {history : List Visit} {rows : List LedgerRow}
    (h : LedgerInv retentionDays history rows) (hretention : 0 ≤ retentionDays)
    (hsorted : (history.map fun visit => visit.time.secs).Pairwise (· ≤ ·)) :
    ∀ row ∈ rows, ∃ visit ∈ liveVisits retentionDays history, ∃ observed ∈ visit.rows,
      identity observed.shared = identity row.shared := by
  intro row hrow
  obtain ⟨a, observed, hlast, hwithin⟩ :=
    (Ledger.recordsHistory_of_inv h hretention hsorted).only row hrow
  have hwritten := hlast.written
  unfold observation at hwritten
  obtain ⟨visit, hvisit, hobserved⟩ := Option.bind_eq_some_iff.mp hwritten
  obtain ⟨ha, hget⟩ := List.getElem?_eq_some_iff.mp hvisit
  obtain ⟨hmem, _, hkey⟩ := Ledger.lastObservation_mem hobserved
  refine ⟨visit, List.mem_filter.mpr ⟨List.mem_of_getElem? hvisit, ?_⟩, observed, hmem, hkey⟩
  rw [Within, Ledger.secondsAt_eq ha, hget] at hwithin
  exact decide_eq_true hwithin

/-- The ledger has at most as many rows as the live visits observed. -/
theorem length_le_observed {retentionDays : Int} {history : List Visit} {rows : List LedgerRow}
    (h : LedgerInv retentionDays history rows) (hretention : 0 ≤ retentionDays)
    (hsorted : (history.map fun visit => visit.time.secs).Pairwise (· ≤ ·)) {n : Nat}
    (hn : ∀ visit ∈ history, visit.rows.length ≤ n) :
    rows.length ≤ (liveVisits retentionDays history).length * n := by
  let observed := (liveVisits retentionDays history).flatMap fun visit =>
    visit.rows.map fun row => identity row.shared
  have hsubset : (rows.map fun row => identity row.shared) ⊆ observed := by
    intro key hkey
    obtain ⟨row, hrow, rfl⟩ := List.mem_map.mp hkey
    obtain ⟨visit, hvisit, seen, hseen, hid⟩ := observed_of_stored h hretention hsorted row hrow
    exact List.mem_flatMap.mpr ⟨visit, hvisit, List.mem_map.mpr ⟨seen, hseen, hid⟩⟩
  have hlength := h.nodup.length_le_of_subset hsubset
  rw [List.length_map, List.length_flatMap] at hlength
  have hsum := List.sum_le_card_nsmul
    ((liveVisits retentionDays history).map fun visit =>
      (visit.rows.map fun row => identity row.shared).length) n (by
        intro size hsize
        obtain ⟨visit, hvisit, rfl⟩ := List.mem_map.mp hsize
        rw [List.length_map]
        exact hn visit (List.mem_of_mem_filter hvisit))
  rw [List.length_map, nsmul_eq_mul, Nat.cast_id] at hsum
  exact hlength.trans hsum

/-! ## Along the loop -/

/-- The ledger of the passes so far: its history is spaced by the poll interval and over by now,
    and no visit observed more than `n` runs. -/
structure SpacedHistory (py : Platform Bytes) (cfg : Config) (n : Nat) (clock : Rat)
    (stored : Option Bytes) (history : List Visit) : Prop where
  tracks : Tracks py cfg.runRetentionDays stored history
  spaced : Spaced cfg.pollIntervalSeconds (history.map fun visit => (visit.time.secs : Int))
  past : ∀ visit ∈ history, (visit.time.secs : Int) + cfg.pollIntervalSeconds ≤ ⌊clock⌋
  size : ∀ visit ∈ history, visit.rows.length ≤ n

theorem SpacedHistory.next (hpq : ParquetFaithful py) (hjson : JsonFaithful py)
    (hcfg : cfg.Accepted) {n : Nat} {clock : Rat} {store : ObjectStore Bytes} {history : List Visit}
    (h : SpacedHistory py cfg n clock (store (objectKey cfg.destPrefix "runs.parquet")) history)
    {pass : Pass cfg} (hcaptures : (pass.inputs.now.secs : Int) = ⌊clock⌋)
    (hcut : HasCutoff cfg.runRetentionDays pass.inputs.now)
    (hn : (observedRows py pass.inputs).length ≤ n) :
    SpacedHistory py cfg n (clock + pass.timing.duration + cfg.pollIntervalSeconds)
      ((runCycle py cfg pass.inputs store).2 (objectKey cfg.destPrefix "runs.parquet"))
      (history ++ (visit? py pass.inputs store).toList) := by
  have hnew : ∀ visit ∈ (visit? py pass.inputs store).toList,
      visit.time = pass.inputs.now ∧ visit.rows = observedRows py pass.inputs := by
    intro visit hvisit
    rw [Option.mem_toList] at hvisit
    exact ⟨time_of_visit hvisit, rows_of_visit hvisit⟩
  have hlater : ⌊clock⌋ + cfg.pollIntervalSeconds ≤
      ⌊clock + pass.timing.duration + cfg.pollIntervalSeconds⌋ := by
    rw [Int.floor_add_intCast]
    have hmono := Int.floor_mono (le_add_of_nonneg_right (a := clock) pass.timing.duration_nonneg)
    linarith
  refine ⟨tracks_runCycle hpq hjson (Int.le_of_lt hcfg.retention_pos) h.tracks hcut, ?_, ?_, ?_⟩
  · rw [List.map_append, Spaced, List.pairwise_append]
    refine ⟨h.spaced, ?_, ?_⟩
    · cases visit? py pass.inputs store <;> simp
    · intro a ha b hb
      obtain ⟨visit, hvisit, rfl⟩ := List.mem_map.mp ha
      obtain ⟨visit', hvisit', rfl⟩ := List.mem_map.mp hb
      rw [(hnew visit' hvisit').1, hcaptures]
      exact h.past visit hvisit
  · refine List.forall_mem_append.mpr ⟨fun visit hvisit => ?_, fun visit hvisit => ?_⟩
    · have hpast := h.past visit hvisit
      have hpoll := hcfg.pollInterval_pos
      linarith
    · rw [(hnew visit hvisit).1, hcaptures]
      exact hlater
  · refine List.forall_mem_append.mpr ⟨h.size, fun visit hvisit => ?_⟩
    rw [(hnew visit hvisit).2]
    exact hn

/-- The last visit of a history in order is at its last time. -/
theorem secs_le_last {gap : Int} (hgap : 0 < gap) {history : List Visit}
    (h : Spaced gap (history.map fun visit => (visit.time.secs : Int))) :
    ∀ visit ∈ history, (visit.time.secs : Int) ≤ secondsAt history (history.length - 1) := by
  rcases List.eq_nil_or_concat history with rfl | ⟨earlier, last, rfl⟩
  · simp
  · rw [List.concat_eq_append, List.map_append, Spaced, List.pairwise_append] at h
    rw [List.concat_eq_append, List.length_append, List.length_singleton, Nat.add_sub_cancel,
      Ledger.secondsAt_length]
    refine List.forall_mem_append.mpr ⟨fun visit hvisit => ?_, by simp⟩
    have hbefore := h.2.2 visit.time.secs (List.mem_map.mpr ⟨visit, hvisit, rfl⟩) last.time.secs
      (by simp)
    linarith

/-- The bound in terms of the configuration. -/
theorem SpacedHistory.bound (hcfg : cfg.Accepted) {n : Nat} {clock : Rat} {stored : Option Bytes}
    {history : List Visit} (h : SpacedHistory py cfg n clock stored history) :
    ∃ table, parquetBytesToTable py stored runsSchema = .ok table ∧
      ((ledgerRows table).length : Int) ≤
        (cfg.runRetentionDays * secondsPerDay / cfg.pollIntervalSeconds + 1) * n := by
  have hretention := Int.le_of_lt hcfg.retention_pos
  obtain ⟨table, hdecode, hinv⟩ := h.tracks.ledger
  have hsorted : (history.map fun visit => visit.time.secs).Pairwise (· ≤ ·) := by
    have hspaced := h.spaced
    rw [Spaced, List.pairwise_map] at hspaced
    rw [List.pairwise_map]
    refine hspaced.imp fun {a b} hab => ?_
    have hpoll := hcfg.pollInterval_pos
    omega
  have hrows := length_le_observed hinv hretention hsorted h.size
  -- the live visits are spaced too, within one retention period
  have hlive : ((liveVisits cfg.runRetentionDays history).length : Int) ≤
      cfg.runRetentionDays * secondsPerDay / cfg.pollIntervalSeconds + 1 := by
    have hspaced : Spaced cfg.pollIntervalSeconds
        ((liveVisits cfg.runRetentionDays history).map fun visit => (visit.time.secs : Int)) :=
      h.spaced.sublist (List.filter_sublist.map _)
    have hwindow : ∀ t ∈ (liveVisits cfg.runRetentionDays history).map
        fun visit => (visit.time.secs : Int),
        secondsAt history (history.length - 1) - cfg.runRetentionDays * secondsPerDay ≤ t ∧
          t ≤ secondsAt history (history.length - 1) := by
      intro t ht
      obtain ⟨visit, hvisit, rfl⟩ := List.mem_map.mp ht
      obtain ⟨hmem, hwithin⟩ := List.mem_filter.mp hvisit
      exact ⟨of_decide_eq_true hwithin, secs_le_last hcfg.pollInterval_pos h.spaced visit hmem⟩
    rw [← List.length_map (fun visit : Visit => (visit.time.secs : Int))]
    exact hspaced.length_le hcfg.pollInterval_pos
      (Int.mul_nonneg hretention (Int.natCast_nonneg secondsPerDay)) hwindow
  refine ⟨table, hdecode, ?_⟩
  calc ((ledgerRows table).length : Int)
      ≤ (liveVisits cfg.runRetentionDays history).length * n := by exact_mod_cast hrows
    _ ≤ (cfg.runRetentionDays * secondsPerDay / cfg.pollIntervalSeconds + 1) * n :=
        Int.mul_le_mul_of_nonneg_right hlive (Int.natCast_nonneg n)

theorem bounded_of_spacedHistory (hpq : ParquetFaithful py) (hjson : JsonFaithful py)
    (hcfg : cfg.Accepted) {n : Nat} {clock : Rat} {store : ObjectStore Bytes} {history : List Visit}
    (h : SpacedHistory py cfg n clock (store (objectKey cfg.destPrefix "runs.parquet")) history)
    {passes : List (Pass cfg)}
    (hcaptures : ∀ completed ∈ runPollLoop py clock store passes, completed.CapturesStart)
    (hcut : ∀ pass ∈ passes, HasCutoff cfg.runRetentionDays pass.inputs.now)
    (hn : ∀ pass ∈ passes, (observedRows py pass.inputs).length ≤ n) :
    ∀ completed ∈ runPollLoop py clock store passes, ∃ table,
      parquetBytesToTable py (completed.store (objectKey cfg.destPrefix "runs.parquet"))
          runsSchema = .ok table ∧
        ((ledgerRows table).length : Int) ≤
          (cfg.runRetentionDays * secondsPerDay / cfg.pollIntervalSeconds + 1) * n := by
  -- every pass leaves a spaced history behind
  induction passes generalizing clock store history with
  | nil => simp [runPollLoop]
  | cons pass passes ih =>
      rw [List.forall_mem_cons] at hcut hn
      rw [runPollLoop, List.forall_mem_cons] at hcaptures ⊢
      have hnext := h.next hpq hjson hcfg hcaptures.1 hcut.1 hn.1
      exact ⟨hnext.bound hcfg, ih hnext hcaptures.2 hcut.2 hn.2⟩

/-- The ledger does not outgrow its bound: in every run of the poll loop on a prefix without a
    ledger, however its cycles end and however many there are, with at most `n` rows observed in a
    cycle the ledger has at most `n` rows for every poll interval that fits into the retention
    period, and one `n` more. -/
theorem ledger_size_bounded (hpq : ParquetFaithful py) (hjson : JsonFaithful py)
    (hcfg : cfg.Accepted) {clock : Rat} {store : ObjectStore Bytes}
    (hempty : store (objectKey cfg.destPrefix "runs.parquet") = none) {passes : List (Pass cfg)}
    (hcaptures : ∀ completed ∈ runPollLoop py clock store passes, completed.CapturesStart)
    (hcut : ∀ pass ∈ passes, HasCutoff cfg.runRetentionDays pass.inputs.now) {n : Nat}
    (hn : ∀ pass ∈ passes, (observedRows py pass.inputs).length ≤ n) :
    ∀ completed ∈ runPollLoop py clock store passes, ∃ table,
      parquetBytesToTable py (completed.store (objectKey cfg.destPrefix "runs.parquet"))
          runsSchema = .ok table ∧
        ((ledgerRows table).length : Int) ≤
          (cfg.runRetentionDays * secondsPerDay / cfg.pollIntervalSeconds + 1) * n := by
  have hstart : SpacedHistory py cfg n clock (store (objectKey cfg.destPrefix "runs.parquet")) [] :=
    ⟨hempty ▸ tracks_nil hpq cfg.runRetentionDays, List.Pairwise.nil, by simp, by simp⟩
  exact bounded_of_spacedHistory hpq hjson hcfg hstart hcaptures hcut hn

/-- Two cycles that list one run: the second ledger is within the bound. -/
theorem ledger_size_bounded_reference :
    ∃ table,
      parquetBytesToTable Reference.platform
          (Reference.secondCompleted.store (objectKey Reference.config.destPrefix "runs.parquet"))
          runsSchema = .ok table ∧
        ((ledgerRows table).length : Int) ≤
          (Reference.config.runRetentionDays * secondsPerDay /
            Reference.config.pollIntervalSeconds + 1) * (1 : Nat) := by
  have hsecond : Reference.secondCompleted ∈ Reference.twoCycles := by
    rw [Reference.twoCycles_eq]
    exact List.mem_cons_of_mem _ List.mem_cons_self
  refine ledger_size_bounded Reference.parquetFaithful Reference.jsonFaithful
    (Config.load_accepted Reference.config_loaded) rfl Reference.twoCycles_captures ?_ ?_
    Reference.secondCompleted hsecond
  · intro pass hpass
    simp only [Reference.earlyThenLate, List.mem_cons, List.not_mem_nil, or_false] at hpass
    rcases hpass with rfl | rfl
    · exact ⟨Reference.weekBefore 0, by decide⟩
    · exact ⟨Reference.weekBefore 360, by decide⟩
  · intro pass hpass
    simp only [Reference.earlyThenLate, List.mem_cons, List.not_mem_nil, or_false] at hpass
    rcases hpass with rfl | rfl <;> exact Nat.le_refl 1

end ArgoExporter.Main
