/-
  ArgoExporter.Consumer.Reconciliation

  The trends against the ledger, against each other and against the rates.  All
  of them are counts of runs: a field of a trend entry counts the runs of its
  period with some phase, and the rates count the same phases over the whole
  ledger.  Periods partition the runs with an event time, hours refine days and
  days refine weeks, so the sums agree.
-/

import ArgoExporter.Consumer.Trends
import ArgoExporter.Reference

namespace ArgoExporter.Consumer

open ArgoExporter.Lib
open ArgoExporter.Py
open ArgoExporter.ParquetIo

/-! ## Rates -/

/-- One row of `Counter(row.get("phase") for row in rows)`; the column holds strings and nulls. -/
def countPhase (counts : OrderedDict String Nat) (row : LedgerRow) : OrderedDict String Nat :=
  match row.shared.phase with
  | .str phase => counts.set phase ((counts.get? phase).getD 0 + 1)
  | _ => counts

def phaseCounts (rows : List LedgerRow) : OrderedDict String Nat :=
  rows.foldl countPhase OrderedDict.empty

/-- `counts.get(phase, 0)`. -/
def countOf (counts : OrderedDict String Nat) (phase : String) : Nat := (counts.get? phase).getD 0

def terminalPhases : List String := ["Succeeded", "Failed", "Error"]

structure Rates where
  total : Nat
  completed : Nat
  succeeded : Nat
  failed : Nat
  error : Nat
  successRate : Option PyFloat
  failureRate : Option PyFloat
  completionRate : Option PyFloat

/-- Outcome rates of the whole ledger; its `failed` counts errors too. -/
def historicalRates (rows : List LedgerRow) : Rates :=
  let counts := phaseCounts rows
  let succeeded := countOf counts "Succeeded"
  let failed := countOf counts "Failed"
  let errors := countOf counts "Error"
  let failures := failed + errors
  let terminal := (terminalPhases.map fun phase => countOf counts phase).sum
  { total := rows.length
    completed := terminal
    succeeded := succeeded
    failed := failures
    error := errors
    successRate := rate succeeded terminal
    failureRate := rate failures terminal
    completionRate := rate terminal rows.length }

/-! ## Specification -/

/-- The rows have event times in years whose `%Y` has four digits, if they have any. -/
def FourDigitYears (rows : List LedgerRow) : Prop :=
  ∀ row ∈ rows, ∀ value, timestamp row = some value → 1000 ≤ value.date.year

/-- The counts of a trend entry. -/
def trendFields : List (Trend → Nat) :=
  [fun t => t.total, fun t => t.succeeded, fun t => t.failed, fun t => t.error, fun t => t.completed]

/-- The instant at which a period starts, read from its name. -/
def periodStart (bucket period : String) : Option Naive :=
  strptime (if bucket = "hour" then period else period ++ "T00:00:00Z")

/-- The name of the coarser period around a period, read from its name. -/
def enclosing (bucket coarser period : String) : Option String :=
  (periodStart bucket period).map fun start => periodName start coarser

/-- Strictly increasing periods that count every row with an event time once. -/
structure PartitionsRows (rows : List LedgerRow) (trends : List Trend) : Prop where
  increasing : (trends.map fun t => t.period).Pairwise (· < ·)
  total : (trends.map fun t => t.total).sum = rows.countP fun row => (timestamp row).isSome

/-- Every entry is part of a coarser one, which has the sums of its parts. -/
structure SumsTo (bucket coarser : String) (trends whole : List Trend) : Prop where
  covered : ∀ t ∈ trends, ∃ t' ∈ whole, enclosing bucket coarser t.period = some t'.period
  sums : ∀ t' ∈ whole, ∀ field ∈ trendFields,
    ((trends.filter fun t => enclosing bucket coarser t.period = some t'.period).map field).sum =
      field t'

/-- The sums over all periods are the counts of the rates. -/
structure Reconciles (rates : Rates) (trends : List Trend) : Prop where
  succeeded : (trends.map fun t => t.succeeded).sum = rates.succeeded
  failed : (trends.map fun t => t.failed + t.error).sum = rates.failed
  completed : (trends.map fun t => t.completed).sum = rates.completed

/-- The two rates are the floats of quotients that sum to one, or are both missing without completed
    runs. -/
def RatesAddUp (succeeded failures completed : Nat) (successRate failureRate : Option PyFloat) :
    Prop :=
  if completed = 0 then successRate = none ∧ failureRate = none
  else ∃ p q : Rat, p = succeeded / completed ∧ q = failures / completed ∧ p + q = 1 ∧
    successRate = some (PyFloat.ofRat p) ∧ failureRate = some (PyFloat.ofRat q)

/-! ## Counting phases -/

def hasPhase (phase : String) (row : LedgerRow) : Bool := row.shared.phase.pyEq (.str phase)

def isTerminal (row : LedgerRow) : Bool :=
  hasPhase "Succeeded" row || hasPhase "Failed" row || hasPhase "Error" row

theorem hasPhase_iff {phase : String} {row : LedgerRow} :
    hasPhase phase row = true ↔ row.shared.phase = .str phase :=
  Json.pyEq_str_iff _ _

theorem countOf_countPhase (counts : OrderedDict String Nat) (row : LedgerRow) (phase : String) :
    countOf (countPhase counts row) phase =
      countOf counts phase + if hasPhase phase row then 1 else 0 := by
  unfold countPhase
  split
  · rename_i phase' hphase
    have hiff : hasPhase phase row = true ↔ phase = phase' := by
      rw [hasPhase_iff, hphase, Json.str.injEq]
      exact eq_comm
    rw [countOf, OrderedDict.get?_set]
    -- the counter written is the one asked for, or another
    by_cases h : phase = phase'
    · rw [if_pos h, if_pos (hiff.mpr h), h]
      rfl
    · rw [if_neg h, if_neg (mt hiff.mp h)]
      rfl
  · rename_i hother
    have hnot : ¬ hasPhase phase row = true := fun h => hother phase (hasPhase_iff.mp h)
    rw [if_neg hnot, Nat.add_zero]

theorem countOf_phaseCounts (rows : List LedgerRow) (phase : String) :
    countOf (phaseCounts rows) phase = rows.countP (hasPhase phase) := by
  induction rows using List.reverseRecOn with
  | nil => rfl
  | append_singleton rows row ih =>
      have hstep : phaseCounts (rows ++ [row]) = countPhase (phaseCounts rows) row := by
        rw [phaseCounts, List.foldl_append]
        rfl
      rw [hstep, countOf_countPhase, ih, List.countP_append, List.countP_singleton]

/-- A run has one phase. -/
theorem hasPhase_ne {phase phase' : String} {row : LedgerRow} (h : hasPhase phase row = true)
    (hne : phase ≠ phase') : hasPhase phase' row = false := by
  rw [Bool.eq_false_iff]
  intro h'
  rw [hasPhase_iff] at h h'
  rw [h, Json.str.injEq] at h'
  exact hne h'

/-- Which of the three terminal phases a run has. -/
theorem phase_cases (row : LedgerRow) :
    (hasPhase "Succeeded" row = true ∧ hasPhase "Failed" row = false ∧
        hasPhase "Error" row = false) ∨
      (hasPhase "Succeeded" row = false ∧ hasPhase "Failed" row = true ∧
        hasPhase "Error" row = false) ∨
      (hasPhase "Succeeded" row = false ∧ hasPhase "Failed" row = false) := by
  by_cases hs : hasPhase "Succeeded" row = true
  · exact Or.inl ⟨hs, hasPhase_ne hs (by decide), hasPhase_ne hs (by decide)⟩
  · rw [Bool.not_eq_true] at hs
    by_cases hf : hasPhase "Failed" row = true
    · exact Or.inr (Or.inl ⟨hs, hf, hasPhase_ne hf (by decide)⟩)
    · rw [Bool.not_eq_true] at hf
      exact Or.inr (Or.inr ⟨hs, hf⟩)

theorem countP_isTerminal (rows : List LedgerRow) :
    rows.countP isTerminal = rows.countP (hasPhase "Succeeded") + rows.countP (hasPhase "Failed") +
      rows.countP (hasPhase "Error") := by
  -- row by row, the three terminal phases exclude one another
  have hrow (row : LedgerRow) : (if isTerminal row then 1 else 0) =
      (if hasPhase "Succeeded" row then 1 else 0) + (if hasPhase "Failed" row then 1 else 0) +
        if hasPhase "Error" row then 1 else 0 := by
    rcases phase_cases row with ⟨hs, hf, he⟩ | ⟨hs, hf, he⟩ | ⟨hs, hf⟩
    · simp [isTerminal, hs, hf, he]
    · simp [isTerminal, hs, hf, he]
    · simp [isTerminal, hs, hf]
  induction rows with
  | nil => rfl
  | cons row rows ih =>
      rw [List.countP_cons, List.countP_cons, List.countP_cons, List.countP_cons, ih, hrow]
      omega

theorem completed_rates (rows : List LedgerRow) :
    (historicalRates rows).completed = rows.countP isTerminal := by
  rw [countP_isTerminal, ← countOf_phaseCounts, ← countOf_phaseCounts, ← countOf_phaseCounts]
  simp [historicalRates, terminalPhases, Nat.add_assoc]

/-! ## Entries as counts -/

/-- The field of a trend entry counts the runs that satisfy the predicate. -/
def CountsRows (field : Trend → Nat) (p : LedgerRow → Bool) : Prop :=
  ∀ period rows, field (trendOf (tally period rows)) = rows.countP p

theorem add_phase (entry : TrendEntry) (row : LedgerRow) :
    entry.add row.shared.phase =
      if hasPhase "Succeeded" row then
        { entry with total := entry.total + 1, succeeded := entry.succeeded + 1 }
      else if hasPhase "Failed" row then
        { entry with total := entry.total + 1, failed := entry.failed + 1 }
      else if hasPhase "Error" row then
        { entry with total := entry.total + 1, error := entry.error + 1 }
      else { entry with total := entry.total + 1 } := rfl

theorem tally_phases (period : String) (rows : List LedgerRow) :
    (tally period rows).succeeded = rows.countP (hasPhase "Succeeded") ∧
      (tally period rows).failed = rows.countP (hasPhase "Failed") ∧
      (tally period rows).error = rows.countP (hasPhase "Error") := by
  induction rows using List.reverseRecOn with
  | nil => exact ⟨rfl, rfl, rfl⟩
  | append_singleton rows row ih =>
      obtain ⟨hsucceeded, hfailed, herror⟩ := ih
      rw [tally_append_singleton, add_phase]
      simp only [List.countP_append, List.countP_singleton]
      rcases phase_cases row with ⟨hs, hf, he⟩ | ⟨hs, hf, he⟩ | ⟨hs, hf⟩
      · simp [hs, hf, he, hsucceeded, hfailed, herror]
      · simp [hs, hf, he, hsucceeded, hfailed, herror]
      · cases he : hasPhase "Error" row with
        | true => simp [hs, hf, hsucceeded, hfailed, herror]
        | false => simp [hs, hf, hsucceeded, hfailed, herror]

theorem countsRows_total : CountsRows (fun t => t.total) fun _ => true := by
  intro period rows
  rw [List.countP_true]
  exact tally_total period rows

theorem countsRows_succeeded : CountsRows (fun t => t.succeeded) (hasPhase "Succeeded") :=
  fun period rows => (tally_phases period rows).1

theorem countsRows_failed : CountsRows (fun t => t.failed) (hasPhase "Failed") :=
  fun period rows => (tally_phases period rows).2.1

theorem countsRows_error : CountsRows (fun t => t.error) (hasPhase "Error") :=
  fun period rows => (tally_phases period rows).2.2

theorem countsRows_completed : CountsRows (fun t => t.completed) isTerminal := by
  intro period rows
  obtain ⟨hs, hf, he⟩ := tally_phases period rows
  rw [countP_isTerminal, ← hs, ← hf, ← he]
  rfl

theorem exists_countsRows {field : Trend → Nat} (h : field ∈ trendFields) :
    ∃ p, CountsRows field p := by
  simp only [trendFields, List.mem_cons, List.not_mem_nil, or_false] at h
  rcases h with rfl | rfl | rfl | rfl | rfl
  · exact ⟨_, countsRows_total⟩
  · exact ⟨_, countsRows_succeeded⟩
  · exact ⟨_, countsRows_failed⟩
  · exact ⟨_, countsRows_error⟩
  · exact ⟨_, countsRows_completed⟩

/-! ## Starts of periods -/

/-- The instant at which the period of this length around an instant starts. -/
def startOf (unit : Nat) (n : Naive) : Naive :=
  ⟨n.micros / unit * unit, Nat.lt_of_le_of_lt (Nat.div_mul_le_self _ _) n.inRange⟩

theorem date_startOf {unit : Nat} {n : Naive}
    (h : (startOf unit n).micros / microsPerDay = n.micros / microsPerDay) :
    (startOf unit n).date = n.date := date_of_sameDay h

/-- The clock at the start of an hour. -/
theorem hms_startOf_hour (n : Naive) :
    hms (startOf 3600000000 n) = pad 2 n.hour ++ ":00:00".toList := by
  -- a whole number of hours since the epoch has no minutes and no seconds
  have hhour : (startOf 3600000000 n).hour = n.hour := by
    unfold startOf Naive.hour Naive.timeOfDay microsPerDay
    dsimp only
    omega
  have hminute : (startOf 3600000000 n).minute = 0 := by
    unfold startOf Naive.minute Naive.timeOfDay microsPerDay
    dsimp only
    omega
  have hsecond : (startOf 3600000000 n).second = 0 := by
    unfold startOf Naive.second Naive.timeOfDay microsPerDay microsPerSecond
    dsimp only
    omega
  rw [hms, hhour, hminute, hsecond]
  rfl

/-- The clock at the start of a day. -/
theorem hms_startOf_day (n : Naive) : hms (startOf microsPerDay n) = "00:00:00".toList := by
  have hmidnight : (startOf microsPerDay n).timeOfDay = 0 := Nat.mul_mod_left _ _
  rw [hms, Naive.hour, Naive.minute, Naive.second, hmidnight]
  rfl

theorem periodStart_hour {n : Naive} (h : 1000 ≤ n.date.year) :
    periodStart "hour" (hourText n) = some (startOf 3600000000 n) := by
  have hdate : (startOf 3600000000 n).date = n.date := by
    apply date_startOf
    unfold startOf microsPerDay
    dsimp only
    omega
  have hwhole : (startOf 3600000000 n).micros % microsPerSecond = 0 := by
    unfold startOf microsPerSecond
    dsimp only
    omega
  rw [periodStart, if_pos rfl]
  refine strptime_padded ?_ hwhole
  rw [hms_startOf_hour, monthDay, hdate, hourText, String.toList_ofList,
    yearText_of_le h n.year_le, monthDay]
  simp only [List.append_assoc, List.cons_append, List.nil_append]
  rfl

theorem periodStart_day {n : Naive} (h : 1000 ≤ n.date.year) :
    periodStart "day" (dayText n) = some (startOf microsPerDay n) := by
  have hdate : (startOf microsPerDay n).date = n.date := by
    apply date_startOf
    unfold startOf microsPerDay
    dsimp only
    omega
  have hwhole : (startOf microsPerDay n).micros % microsPerSecond = 0 := by
    unfold startOf microsPerDay microsPerSecond
    dsimp only
    omega
  rw [periodStart, if_neg (by decide)]
  refine strptime_padded ?_ hwhole
  rw [hms_startOf_day, monthDay, hdate, String.toList_append, dayText, String.toList_ofList,
    yearText_of_le h n.year_le, monthDay]
  simp only [List.append_assoc, List.cons_append, List.nil_append]
  rfl

/-- The day around an hour. -/
theorem enclosing_hour {n : Naive} (h : 1000 ≤ n.date.year) :
    enclosing "hour" "day" (periodName n "hour") = some (periodName n "day") := by
  have hsame : SamePeriod "day" (startOf 3600000000 n) n := by
    show n.micros / 3600000000 * 3600000000 / microsPerDay = n.micros / microsPerDay
    unfold microsPerDay
    omega
  have hname : periodName n "hour" = hourText n := if_pos rfl
  rw [enclosing, hname, periodStart_hour h, Option.map_some,
    (periodName_eq_iff _ _ "day").mpr hsame]

/-- The week around a day, whatever month or year it ends in. -/
theorem enclosing_day {n : Naive} (h : 1000 ≤ n.date.year) :
    enclosing "day" "week" (periodName n "day") = some (periodName n "week") := by
  have hsame : SamePeriod "week" (startOf microsPerDay n) n := by
    show n.micros / microsPerDay * microsPerDay / (7 * microsPerDay) =
      n.micros / (7 * microsPerDay)
    unfold microsPerDay
    omega
  have hname : periodName n "day" = dayText n := by
    rw [periodName, if_neg (by decide), if_pos rfl]
  rw [enclosing, hname, periodStart_day h, Option.map_some,
    (periodName_eq_iff _ _ "week").mpr hsame]

theorem rowPeriod_refines {bucket coarser : String} {row : LedgerRow}
    (h : ∀ value, timestamp row = some value →
      enclosing bucket coarser (periodName value bucket) = some (periodName value coarser)) :
    rowPeriod coarser row = (rowPeriod bucket row).bind (enclosing bucket coarser) := by
  unfold rowPeriod
  cases htime : timestamp row with
  | none => rfl
  | some value => rw [Option.map_some, Option.map_some, Option.bind_some, h value htime]

/-! ## Sums -/

/-- The entries of these periods. -/
def trendsOf (bucket : String) (rows : List LedgerRow) (periods : List String) : List Trend :=
  periods.map fun period => trendOf (tally period (rowsIn bucket period rows))

section Sums

variable {bucket : String} {rows : List LedgerRow} {periods : List String}

theorem period_trendOf (period : String) :
    (trendOf (tally period (rowsIn bucket period rows))).period = period := tally_period _ _

theorem Periods.covers (h : Periods bucket rows periods) :
    ∀ row ∈ rows, ∀ period, rowPeriod bucket row = some period → period ∈ periods :=
  fun row hrow period hperiod => (h.mem_iff period).mpr ⟨row, hrow, hperiod⟩

/-- A field, summed over all periods, counts over the runs with an event time. -/
theorem sum_trendsOf (h : Periods bucket rows periods) {field : Trend → Nat}
    {p : LedgerRow → Bool} (hfield : CountsRows field p) :
    ((trendsOf bucket rows periods).map field).sum =
      rows.countP fun row => p row && (timestamp row).isSome := by
  have hsome (row : LedgerRow) : (rowPeriod bucket row).isSome = (timestamp row).isSome := by
    rw [rowPeriod, Option.isSome_map]
  rw [trendsOf, List.map_map]
  have hcount : (field ∘ fun period => trendOf (tally period (rowsIn bucket period rows))) =
      fun period => (Grouping.group (rowPeriod bucket) period rows).countP p := by
    funext period
    exact hfield period _
  rw [hcount, Grouping.sum_countP_group (rowPeriod bucket) h.nodup h.covers]
  simp only [hsome]

theorem partitionsRows_trendsOf (h : Periods bucket rows periods) :
    PartitionsRows rows (trendsOf bucket rows periods) where
  increasing := by
    rw [trendsOf, List.map_map]
    have hnames : ((fun t : Trend => t.period) ∘ fun period =>
        trendOf (tally period (rowsIn bucket period rows))) = id := by
      funext period
      exact period_trendOf period
    rw [hnames, List.map_id]
    exact h.increasing
  total := by
    rw [sum_trendsOf h countsRows_total]
    simp only [Bool.true_and]

/-- Where a period's name determines the coarser period of its runs, the entries add up. -/
theorem sumsTo_trendsOf {coarser : String} {periods' : List String}
    (h : Periods bucket rows periods) (h' : Periods coarser rows periods')
    (hrefines : ∀ row ∈ rows,
      rowPeriod coarser row = (rowPeriod bucket row).bind (enclosing bucket coarser)) :
    SumsTo bucket coarser (trendsOf bucket rows periods) (trendsOf coarser rows periods') := by
  refine ⟨?_, ?_⟩
  -- every finer bucket has its coarser bucket in the list
  · intro t ht
    obtain ⟨period, hperiod, rfl⟩ := List.mem_map.mp ht
    obtain ⟨row, hrow, hrowPeriod⟩ := (h.mem_iff period).mp hperiod
    have hcoarse := hrefines row hrow
    rw [hrowPeriod, Option.bind_some] at hcoarse
    obtain ⟨value, hvalue, _⟩ := Option.map_eq_some_iff.mp hrowPeriod
    have hrowCoarse : rowPeriod coarser row = some (periodName value coarser) := by
      rw [rowPeriod, hvalue, Option.map_some]
    refine ⟨_, List.mem_map.mpr ⟨periodName value coarser, ?_, rfl⟩, ?_⟩
    · exact h'.covers row hrow _ hrowCoarse
    · rw [period_trendOf, period_trendOf, ← hcoarse, hrowCoarse]
  -- a coarser bucket is the sum of the finer ones it encloses
  · intro t' ht' field hfield
    obtain ⟨period', _, rfl⟩ := List.mem_map.mp ht'
    obtain ⟨p, hp⟩ := exists_countsRows hfield
    have hcount (period : String) : field (trendOf (tally period (rowsIn bucket period rows))) =
        (Grouping.group (rowPeriod bucket) period rows).countP p := hp period _
    -- choosing among the trends is choosing among the periods
    have hfilter : (trendsOf bucket rows periods).filter
        (fun t => enclosing bucket coarser t.period = some period') =
          trendsOf bucket rows (periods.filter fun period =>
            enclosing bucket coarser period = some period') := by
      rw [trendsOf, List.filter_map, trendsOf]
      congr 2
      funext period
      rw [Function.comp_apply, period_trendOf]
    rw [period_trendOf, hfilter, trendsOf, List.map_map, hp]
    show ((periods.filter _).map fun period => field _).sum = _
    simp only [hcount]
    exact Grouping.sum_countP_group_of_refines h.nodup h.covers hrefines period' p

theorem reconciles_trendsOf (h : Periods bucket rows periods)
    (husable : ∀ row ∈ rows, (timestamp row).isSome = true) :
    Reconciles (historicalRates rows) (trendsOf bucket rows periods) := by
  -- with a usable timestamp on every row, no row is left out of the trends
  have hall (p : LedgerRow → Bool) :
      (rows.countP fun row => p row && (timestamp row).isSome) = rows.countP p := by
    apply List.countP_congr
    intro row hrow
    rw [husable row hrow, Bool.and_true]
  refine ⟨?_, ?_, ?_⟩
  · rw [sum_trendsOf h countsRows_succeeded, hall, ← countOf_phaseCounts]
    rfl
  · rw [List.sum_map_add, sum_trendsOf h countsRows_failed, sum_trendsOf h countsRows_error, hall,
      hall, ← countOf_phaseCounts, ← countOf_phaseCounts]
    rfl
  · rw [sum_trendsOf h countsRows_completed, hall, completed_rates]

end Sums

/-! ## Rates of an entry -/

/-- The successes and the failures are the completed runs. -/
theorem ratesAddUp_rate {succeeded failures completed : Nat}
    (h : completed = succeeded + failures) :
    RatesAddUp succeeded failures completed (rate succeeded completed)
      (rate failures completed) := by
  unfold RatesAddUp rate
  -- with no completed run both rates are null
  by_cases hzero : completed = 0
  · rw [if_pos hzero, if_pos hzero, if_pos hzero]
    exact ⟨rfl, rfl⟩
  · rw [if_neg hzero, if_neg hzero, if_neg hzero]
    have hne : (completed : Rat) ≠ 0 := by exact_mod_cast hzero
    refine ⟨_, _, rfl, rfl, ?_, rfl, rfl⟩
    rw [← add_div, div_eq_one_iff_eq hne, h]
    push_cast
    rfl

theorem ratesAddUp_trendOf (entry : TrendEntry) :
    RatesAddUp (trendOf entry).succeeded ((trendOf entry).failed + (trendOf entry).error)
      (trendOf entry).completed (trendOf entry).successRate (trendOf entry).failureRate :=
  ratesAddUp_rate (Nat.add_assoc _ _ _)

theorem ratesAddUp_historicalRates (rows : List LedgerRow) :
    RatesAddUp (historicalRates rows).succeeded (historicalRates rows).failed
      (historicalRates rows).completed (historicalRates rows).successRate
      (historicalRates rows).failureRate := by
  have hcompleted : (historicalRates rows).completed =
      (historicalRates rows).succeeded + (historicalRates rows).failed := by
    simp [historicalRates, terminalPhases]
  exact ratesAddUp_rate hcompleted

/-! ## Trends and rates -/

/-- What one bucket's trends are to the ledger and its rates. -/
structure AccountsFor (rows : List LedgerRow) (trends : List Trend) : Prop where
  partitions : PartitionsRows rows trends
  reconciles : (∀ row ∈ rows, (timestamp row).isSome = true) →
    Reconciles (historicalRates rows) trends
  ratesAddUp : ∀ t ∈ trends,
    RatesAddUp t.succeeded (t.failed + t.error) t.completed t.successRate t.failureRate

theorem accountsFor_trendsOf {bucket : String} {rows : List LedgerRow} {periods : List String}
    (h : Periods bucket rows periods) : AccountsFor rows (trendsOf bucket rows periods) where
  partitions := partitionsRows_trendsOf h
  reconciles := reconciles_trendsOf h
  ratesAddUp := by
    intro t ht
    obtain ⟨period, _, rfl⟩ := List.mem_map.mp ht
    exact ratesAddUp_trendOf _

/-- Hours add up to days and days to weeks, and all of them account for the runs of the ledger. -/
theorem trends_reconcile {rows : List LedgerRow} (hyears : FourDigitYears rows) :
    ∃ hours days weeks, historicalTrends rows "hour" = .ok hours ∧
      historicalTrends rows "day" = .ok days ∧ historicalTrends rows "week" = .ok weeks ∧
      AccountsFor rows hours ∧ AccountsFor rows days ∧ AccountsFor rows weeks ∧
      SumsTo "hour" "day" hours days ∧ SumsTo "day" "week" days weeks ∧
      RatesAddUp (historicalRates rows).succeeded (historicalRates rows).failed
        (historicalRates rows).completed (historicalRates rows).successRate
        (historicalRates rows).failureRate := by
  have hhour : "hour" ∈ trendBuckets := by decide
  have hday : "day" ∈ trendBuckets := by decide
  have hweek : "week" ∈ trendBuckets := by decide
  obtain ⟨hours, hhours, hhourTrends⟩ := historicalTrends_spec rows hhour
  obtain ⟨days, hdays, hdayTrends⟩ := historicalTrends_spec rows hday
  obtain ⟨weeks, hweeks, hweekTrends⟩ := historicalTrends_spec rows hweek
  -- only the naming of the periods is left: an hour lies in its day, a day in its week
  refine ⟨_, _, _, hhourTrends, hdayTrends, hweekTrends, accountsFor_trendsOf hhours,
    accountsFor_trendsOf hdays, accountsFor_trendsOf hweeks, sumsTo_trendsOf hhours hdays ?_,
    sumsTo_trendsOf hdays hweeks ?_, ratesAddUp_historicalRates rows⟩
  · intro row hrow
    exact rowPeriod_refines fun value htime => enclosing_hour (hyears row hrow value htime)
  · intro row hrow
    exact rowPeriod_refines fun value htime => enclosing_day (hyears row hrow value htime)

/-- A run without a finish that was last seen in the first days of a year, in a week that started in
    the year before. -/
def newYearRun : LedgerRow := ledgerRow (Reference.row "").shared nextMidnight nextMidnight

theorem timestamp_newYearRun : timestamp newYearRun = some nextMidnight.naive := by
  have hread : readColumn (.str nextMidnight.text) = some nextMidnight.naive := by
    rw [readColumn_str, Stamp.strptime_text]
  have hfinish : readColumn newYearRun.shared.finishedAt = none := rfl
  rw [timestamp, List.findSome?_cons_of_isNone (by rw [hfinish]; rfl)]
  show ([.str nextMidnight.text, .str nextMidnight.text] : List Json).findSome? readColumn = _
  rw [List.findSome?_cons_of_isSome (by rw [hread]; rfl), hread]

/-- One run at New Year: the hours add up to the day, and the day to its week. -/
theorem trends_reconcile_newYear :
    ∃ hours days weeks, historicalTrends [newYearRun] "hour" = .ok hours ∧
      historicalTrends [newYearRun] "day" = .ok days ∧
      historicalTrends [newYearRun] "week" = .ok weeks ∧
      AccountsFor [newYearRun] hours ∧ AccountsFor [newYearRun] days ∧
      AccountsFor [newYearRun] weeks ∧
      SumsTo "hour" "day" hours days ∧ SumsTo "day" "week" days weeks ∧
      RatesAddUp (historicalRates [newYearRun]).succeeded (historicalRates [newYearRun]).failed
        (historicalRates [newYearRun]).completed (historicalRates [newYearRun]).successRate
        (historicalRates [newYearRun]).failureRate := by
  apply trends_reconcile
  intro row hrow value hvalue
  rw [List.mem_singleton.mp hrow, timestamp_newYearRun, Option.some.injEq] at hvalue
  rw [← hvalue]
  exact nextMidnight.year_ge

end ArgoExporter.Consumer
