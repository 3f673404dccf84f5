/-
  ArgoExporter.Consumer.DurationHistory

  The durations of the run ledger, sorted by the text of their times.  The texts
  have two widths, with a fraction of a second and without one, and text order
  puts the fraction first.  The history is in the order of the instants exactly
  when no second has both a run at its start and a run after it.
-/

import ArgoExporter.Reference
import ArgoExporter.Workflows.NormalizedTimes
import Mathlib.Data.List.Sort

namespace ArgoExporter.Consumer

open ArgoExporter.Py
open ArgoExporter.ParquetIo
open ArgoExporter.Workflows

/-! ## The history -/

/-- `isinstance(value, (int, float))`, booleans excepted. -/
def isNumber : Json → Bool
  | .int _ => true
  | .float _ => true
  | _ => false

/-- One row of the history. -/
structure DurationEntry where
  cluster : Json
  uid : Json
  name : Json
  phase : Json
  startedAt : Json
  finishedAt : Json
  durationSeconds : Json

def hasDuration (row : LedgerRow) : Bool := isNumber row.shared.durationSeconds

def durationEntry (row : LedgerRow) : DurationEntry :=
  { cluster := row.shared.cluster
    uid := row.shared.uid
    name := row.shared.name
    phase := row.shared.phase
    startedAt := row.shared.startedAt
    finishedAt := row.shared.finishedAt
    durationSeconds := row.shared.durationSeconds }

/-- `finished_at or started_at or ""`, of cells that are strings or null as in the ledger. -/
def timeText (entry : DurationEntry) : String := (entry.finishedAt.or entry.startedAt).orEmpty

/-- The sort key: time, cluster, uid. -/
def durationKey (entry : DurationEntry) : String ×ₗ String ×ₗ String :=
  toLex (timeText entry, toLex (entry.cluster.orEmpty, entry.uid.orEmpty))

def historicalDurationHistory (rows : List LedgerRow) : List DurationEntry :=
  ((rows.filter hasDuration).map durationEntry).insertionSort
    fun a b => durationKey a ≤ durationKey b

/-! ## Specification -/

/-- A cell that is null or was emitted by `normalize_timestamp`. -/
def Emitted (cell : Json) : Prop :=
  cell = .null ∨ ∃ source text, normalizeTimestamp source = .ok (some text) ∧ cell = .str text

structure EmittedTimes (row : LedgerRow) : Prop where
  startedAt : Emitted row.shared.startedAt
  finishedAt : Emitted row.shared.finishedAt

/-- The instant of an entry: its finish, or its start when the finish is null. -/
def eventInstant (entry : DurationEntry) : Option Int :=
  match entry.finishedAt with
  | .null => utcInstant entry.startedAt
  | finishedAt => utcInstant finishedAt

/-- The second entry is not before the first, if both have an instant. -/
def NotBefore (a b : DurationEntry) : Prop :=
  ∀ i j, eventInstant a = some i → eventInstant b = some j → i ≤ j

/-- The rows with a numeric duration, all of them, in the order of their instants. -/
structure Chronological (rows : List LedgerRow) (history : List DurationEntry) : Prop where
  complete : history.Perm ((rows.filter hasDuration).map durationEntry)
  ordered : history.Pairwise NotBefore

/-- Two runs with a duration are in one second, one at its start and one after it. -/
def SplitSecond (rows : List LedgerRow) : Prop :=
  ∃ row ∈ rows, ∃ row' ∈ rows, hasDuration row = true ∧ hasDuration row' = true ∧
    ∃ i j, eventInstant (durationEntry row) = some i ∧ eventInstant (durationEntry row') = some j ∧
      i / microsPerSecond = j / microsPerSecond ∧ i % microsPerSecond = 0 ∧ j % microsPerSecond ≠ 0

/-- In a list that is sorted by a key and ordered by a relation, the key never contradicts the
    relation. -/
theorem rel_of_key_lt {α β : Type*} [LinearOrder β] {key : α → β} {R : α → α → Prop} {l : List α}
    (hsorted : l.Pairwise fun a b => key a ≤ key b) (hR : l.Pairwise R) {a b : α} (ha : a ∈ l)
    (hb : b ∈ l) (h : key a < key b) : R a b := by
  have hboth : l.Pairwise fun x y => (key x ≤ key y ∧ R x y) ∨ (key y ≤ key x ∧ R y x) :=
    (hsorted.and hR).imp fun h => Or.inl h
  have : Std.Symm fun x y => (key x ≤ key y ∧ R x y) ∨ (key y ≤ key x ∧ R y x) :=
    ⟨fun _ _ h => h.symm⟩
  have hne : a ≠ b := by
    rintro rfl
    exact absurd h (lt_irrefl _)
  rcases hboth.forall ha hb hne with ⟨_, hrel⟩ | ⟨hle, _⟩
  · exact hrel
  · exact absurd h (not_lt.mpr hle)

/-! ## Keys and instants -/

theorem utcInstant_null : utcInstant .null = none := rfl

/-- An emitted cell is null, or the text of an instant. -/
theorem Emitted.cases {cell : Json} (h : Emitted cell) :
    cell = .null ∨ ∃ utc : Naive, cell = .str (isoformatZ utc) ∧
      utcInstant cell = some (utc.micros : Int) := by
  refine h.imp_right ?_
  rintro ⟨source, text, hnormalize, rfl⟩
  obtain ⟨utc, rfl, _⟩ := normalizeTimestamp_eq_some hnormalize
  exact ⟨utc, rfl, utcInstant_isoformatZ utc⟩

theorem isoformatZ_truthy (utc : Naive) : (Json.str (isoformatZ utc)).truthy = true := by
  apply decide_eq_true
  intro h
  have hlast := getLast?_isoformatZ utc
  rw [h] at hlast
  exact absurd hlast (by decide)

/-- An entry with emitted times has no instant, or its key starts with the text of its instant. -/
theorem eventInstant_of_emitted {row : LedgerRow} (h : EmittedTimes row) :
    eventInstant (durationEntry row) = none ∨
      ∃ utc : Naive, eventInstant (durationEntry row) = some (utc.micros : Int) ∧
        timeText (durationEntry row) = isoformatZ utc := by
  unfold eventInstant timeText durationEntry
  dsimp only
  rcases h.finishedAt.cases with hnull | ⟨utc, hfinished, hinstant⟩
  -- no end was emitted, and the key falls back to the start
  · rw [hnull]
    dsimp only
    rcases h.startedAt.cases with hstarted | ⟨utc, hstarted, hinstant⟩
    · rw [hstarted]
      exact Or.inl utcInstant_null
    · refine Or.inr ⟨utc, hinstant, ?_⟩
      rw [hstarted]
      rfl
  · rw [hfinished] at hinstant ⊢
    refine Or.inr ⟨utc, hinstant, ?_⟩
    rw [Json.or, if_pos (isoformatZ_truthy utc)]
    rfl

theorem timeText_le_of_key_le {a b : DurationEntry} (h : durationKey a ≤ durationKey b) :
    timeText a ≤ timeText b := by
  rcases Prod.Lex.toLex_le_toLex.mp h with hlt | ⟨heq, _⟩
  · exact le_of_lt hlt
  · exact le_of_eq heq

theorem key_lt_of_timeText_lt {a b : DurationEntry} (h : timeText a < timeText b) :
    durationKey a < durationKey b :=
  Prod.Lex.toLex_lt_toLex.mpr (Or.inl h)

/-- Text order puts a run before an earlier one only inside a second that has runs of both kinds. -/
theorem notBefore_or_splitSecond {rows : List LedgerRow} {row row' : LedgerRow}
    (hrow : row ∈ rows) (hrow' : row' ∈ rows) (hduration : hasDuration row = true)
    (hduration' : hasDuration row' = true) (h : EmittedTimes row) (h' : EmittedTimes row')
    (hle : timeText (durationEntry row) ≤ timeText (durationEntry row')) :
    NotBefore (durationEntry row) (durationEntry row') ∨ SplitSecond rows := by
  rcases eventInstant_of_emitted h with hnone | ⟨utc, hinstant, htext⟩
  · refine Or.inl fun i j hi _ => ?_
    rw [hnone] at hi
    exact absurd hi (by simp)
  rcases eventInstant_of_emitted h' with hnone | ⟨utc', hinstant', htext'⟩
  · refine Or.inl fun i j _ hj => ?_
    rw [hnone] at hj
    exact absurd hj (by simp)
  -- both have an instant: the order of the texts is that of the seconds, then of the fractions
  rw [htext, htext', ← not_lt, isoformatZ_lt_iff, not_or, not_and, FractionBefore] at hle
  obtain ⟨hsecond, hfraction⟩ := hle
  rw [utc.microsecond_eq, utc'.microsecond_eq] at hfraction
  unfold microsPerSecond at hsecond hfraction
  by_cases hbefore : utc.micros ≤ utc'.micros
  · refine Or.inl fun i j hi hj => ?_
    rw [hinstant, Option.some.injEq] at hi
    rw [hinstant', Option.some.injEq] at hj
    omega
  · -- both are in one second, the later one has a fraction and the earlier one none
    have hfraction := hfraction (by omega)
    refine Or.inr ⟨row', hrow', row, hrow, hduration', hduration, _, _, hinstant', hinstant, ?_⟩
    unfold microsPerSecond
    omega

/-- In a second with runs of both kinds, the later run comes first. -/
theorem later_first_of_split {row row' : LedgerRow} (h : EmittedTimes row)
    (h' : EmittedTimes row') {i j : Int} (hi : eventInstant (durationEntry row) = some i)
    (hj : eventInstant (durationEntry row') = some j)
    (hsecond : i / microsPerSecond = j / microsPerSecond) (hwhole : i % microsPerSecond = 0)
    (hfraction : j % microsPerSecond ≠ 0) :
    i < j ∧ durationKey (durationEntry row') < durationKey (durationEntry row) := by
  -- an instant comes from a normalized text
  rcases eventInstant_of_emitted h with hnone | ⟨utc, hinstant, htext⟩
  · rw [hnone] at hi
    exact absurd hi (by simp)
  rcases eventInstant_of_emitted h' with hnone | ⟨utc', hinstant', htext'⟩
  · rw [hnone] at hj
    exact absurd hj (by simp)
  rw [hinstant, Option.some.injEq] at hi
  rw [hinstant', Option.some.injEq] at hj
  subst hi hj
  unfold microsPerSecond at hsecond hwhole hfraction
  refine ⟨by omega, key_lt_of_timeText_lt ?_⟩
  -- in one second a point sorts before the `Z`
  rw [htext, htext', isoformatZ_lt_iff, FractionBefore, utc.microsecond_eq, utc'.microsecond_eq]
  unfold microsPerSecond
  omega

/-! ## Chronology -/

theorem perm_history (rows : List LedgerRow) :
    (historicalDurationHistory rows).Perm ((rows.filter hasDuration).map durationEntry) :=
  List.perm_insertionSort _ _

theorem sorted_history (rows : List LedgerRow) :
    (historicalDurationHistory rows).Pairwise fun a b => durationKey a ≤ durationKey b := by
  have : Std.Total fun a b : DurationEntry => durationKey a ≤ durationKey b :=
    ⟨fun a b => le_total (durationKey a) (durationKey b)⟩
  have : IsTrans DurationEntry fun a b => durationKey a ≤ durationKey b :=
    ⟨fun a b c => le_trans⟩
  exact List.pairwise_insertionSort _ _

theorem mem_history {rows : List LedgerRow} {entry : DurationEntry} :
    entry ∈ historicalDurationHistory rows ↔
      ∃ row ∈ rows, hasDuration row = true ∧ durationEntry row = entry := by
  rw [(perm_history rows).mem_iff, List.mem_map]
  simp only [List.mem_filter, and_assoc]

theorem ordered_history_iff {rows : List LedgerRow} (h : ∀ row ∈ rows, EmittedTimes row) :
    (historicalDurationHistory rows).Pairwise NotBefore ↔ ¬ SplitSecond rows := by
  constructor
  -- a split second puts the later of its two rows first
  · rintro hordered ⟨row, hrow, row', hrow', hduration, hduration', i, j, hi, hj, hsecond, hwhole,
      hfraction⟩
    obtain ⟨hlt, hkey⟩ := later_first_of_split (h row hrow) (h row' hrow') hi hj hsecond hwhole
      hfraction
    have hmem := mem_history.mpr ⟨row, hrow, hduration, rfl⟩
    have hmem' := mem_history.mpr ⟨row', hrow', hduration', rfl⟩
    have hle : j ≤ i := rel_of_key_lt (sorted_history rows) hordered hmem' hmem hkey j i hj hi
    omega
  -- the text order is the order of instants everywhere else
  · intro hsplit
    refine (sorted_history rows).imp_of_mem ?_
    intro a b ha hb hle
    obtain ⟨row, hrow, hduration, rfl⟩ := mem_history.mp ha
    obtain ⟨row', hrow', hduration', rfl⟩ := mem_history.mp hb
    exact (notBefore_or_splitSecond hrow hrow' hduration hduration' (h row hrow) (h row' hrow')
      (timeText_le_of_key_le hle)).resolve_right hsplit

/-- The history has all runs with a duration, and is in the order of their instants exactly when no
    second has both a run at its start and a run after it. -/
theorem historicalDurationHistory_chronological_iff {rows : List LedgerRow}
    (h : ∀ row ∈ rows, EmittedTimes row) :
    Chronological rows (historicalDurationHistory rows) ↔ ¬ SplitSecond rows := by
  rw [← ordered_history_iff h]
  exact ⟨fun hchronological => hchronological.ordered, fun hordered => ⟨perm_history rows, hordered⟩⟩

/-! ## Two runs -/

def midnight : Naive := ⟨63902822400000000, by decide⟩
def afterMidnight : Naive := ⟨63902822400500000, by decide⟩

/-- A run with a duration that finished at this time. -/
def finishedRow (uid : String) (utc : Naive) : LedgerRow :=
  ⟨{ (Reference.row "").shared with
      uid := .str uid, finishedAt := .str (isoformatZ utc), durationSeconds := .int 1 },
    .null, .null⟩

theorem emittedTimes_finishedRow (uid : String) (utc : Naive) :
    EmittedTimes (finishedRow uid utc) where
  startedAt := Or.inl rfl
  finishedAt := Or.inr ⟨_, _, normalizeTimestamp_isoformatZ utc, rfl⟩

theorem eventInstant_finishedRow (uid : String) (utc : Naive) :
    eventInstant (durationEntry (finishedRow uid utc)) = some (utc.micros : Int) :=
  utcInstant_isoformatZ utc

def secondsLater : Naive := ⟨63902822402000000, by decide⟩

/-- Two runs that finished in different seconds, the later one first. -/
def apartRows : List LedgerRow :=
  [finishedRow "u-1" secondsLater, finishedRow "u-2" afterMidnight]

theorem emittedTimes_apartRows : ∀ row ∈ apartRows, EmittedTimes row := by
  intro row hrow
  rcases List.mem_cons.mp hrow with rfl | hrow
  · exact emittedTimes_finishedRow "u-1" secondsLater
  · rw [List.mem_singleton.mp hrow]
    exact emittedTimes_finishedRow "u-2" afterMidnight

theorem not_splitSecond_apartRows : ¬ SplitSecond apartRows := by
  rintro ⟨row, hrow, row', hrow', _, _, i, j, hi, hj, hsecond, hwhole, hfraction⟩
  -- the run on the second is the first one, the run after it the second one
  have hlater : i = 63902822402000000 := by
    rcases List.mem_cons.mp hrow with rfl | hrow
    · exact Option.some.inj (hi.symm.trans (eventInstant_finishedRow "u-1" secondsLater))
    · rw [List.mem_singleton.mp hrow, eventInstant_finishedRow, Option.some.injEq] at hi
      rw [← hi] at hwhole
      exact absurd hwhole (by decide)
  have hearlier : j = 63902822400500000 := by
    rcases List.mem_cons.mp hrow' with rfl | hrow'
    · rw [eventInstant_finishedRow, Option.some.injEq] at hj
      rw [← hj] at hfraction
      exact absurd rfl hfraction
    · rw [List.mem_singleton.mp hrow', eventInstant_finishedRow] at hj
      exact (Option.some.inj hj).symm
  rw [hlater, hearlier] at hsecond
  exact absurd hsecond (by decide)

/-- Runs that finished in different seconds are put in order. -/
theorem historicalDurationHistory_chronological_iff_apart :
    Chronological apartRows (historicalDurationHistory apartRows) :=
  (historicalDurationHistory_chronological_iff emittedTimes_apartRows).mpr not_splitSecond_apartRows

theorem emittedTimes_midnight :
    ∀ row ∈ [finishedRow "u-1" midnight, finishedRow "u-2" afterMidnight], EmittedTimes row := by
  intro row hrow
  rcases List.mem_cons.mp hrow with rfl | hrow
  · exact emittedTimes_finishedRow "u-1" midnight
  · rw [List.mem_singleton.mp hrow]
    exact emittedTimes_finishedRow "u-2" afterMidnight

/-- The run that finished at midnight comes after the one that finished half a second later. -/
theorem later_run_comes_first :
    isoformatZ midnight = "2026-01-01T00:00:00Z" ∧
      isoformatZ afterMidnight = "2026-01-01T00:00:00.500000Z" ∧
      (∀ row ∈ [finishedRow "u-1" midnight, finishedRow "u-2" afterMidnight], EmittedTimes row) ∧
      ¬ Chronological [finishedRow "u-1" midnight, finishedRow "u-2" afterMidnight]
        (historicalDurationHistory
          [finishedRow "u-1" midnight, finishedRow "u-2" afterMidnight]) := by
  refine ⟨by decide, by decide, emittedTimes_midnight, ?_⟩
  intro h
  refine (ordered_history_iff emittedTimes_midnight).mp h.ordered ?_
  exact ⟨finishedRow "u-1" midnight, List.mem_cons_self, finishedRow "u-2" afterMidnight,
    List.mem_cons_of_mem _ List.mem_cons_self, rfl, rfl, _, _, eventInstant_finishedRow _ _,
    eventInstant_finishedRow _ _, by decide, by decide, by decide⟩

end ArgoExporter.Consumer
