/-
  ArgoExporter.Consumer.Trends

  Outcome trends from the run ledger.  A run is counted in the period of its
  finish, which the exporter writes with its fraction of a second and the
  consumer reads without one: a finish with a fraction is not read at all, and
  the run is counted where it was last seen.
-/

import ArgoExporter.Lib.Grouping
import ArgoExporter.Lib.OrderedDict
import ArgoExporter.ParquetIo
import ArgoExporter.Py.Number
import ArgoExporter.Py.Isoformat
import ArgoExporter.Workflows.Timestamps
import Mathlib.Data.List.Find
import Mathlib.Data.List.Sort

namespace ArgoExporter.Consumer

open ArgoExporter.Lib
open ArgoExporter.Py
open ArgoExporter.ParquetIo
open ArgoExporter.Workflows

/-! ## Periods -/

/-- `value.strftime("%Y-%m-%dT%H:00:00Z")`. -/
def hourText (value : Naive) : String :=
  String.ofList (yearText value.date.year ++ (monthDay value ++
    'T' :: pad 2 value.hour ++ ":00:00Z".toList))

/-- `value.strftime("%Y-%m-%d")`. -/
def dayText (value : Naive) : String :=
  String.ofList (yearText value.date.year ++ monthDay value)

def trendBuckets : List String := ["hour", "day", "week"]

/-- The period of an instant; a week is named after its Monday. -/
def trendPeriod (value : Naive) (bucket : String) : Except Exc String :=
  if bucket = "hour" then .ok (hourText value)
  else if bucket = "day" then .ok (dayText value)
  else
    match Naive.ofMicros? ((value.micros : Int) - value.date.weekday * microsPerDay) with
    | some weekStart => .ok (dayText weekStart)
    | none => raise .overflowError "date value out of range"

/-- The instant in a column; a value that is no string or does not parse is passed over. -/
def readColumn : Json → Option Naive
  | .str s => strptime s
  | _ => none

theorem readColumn_str (s : String) : readColumn (.str s) = strptime s := by rw [readColumn]

/-- The event time of a run: its finish, or else a time of the ledger. -/
def timestamp (row : LedgerRow) : Option Naive :=
  [row.shared.finishedAt, row.lastSeenAt, row.firstSeenAt].findSome? readColumn

/-! ## Names of periods -/

/-- Length of a period in microseconds. -/
def periodMicros (bucket : String) : Nat :=
  if bucket = "hour" then 3600000000
  else if bucket = "day" then microsPerDay
  else 7 * microsPerDay

/-- Two instants in one period; weeks start on Monday, as year 1 does. -/
def SamePeriod (bucket : String) (a b : Naive) : Prop :=
  a.micros / periodMicros bucket = b.micros / periodMicros bucket

theorem date_toDays (n : Naive) : n.date.toDays = n.micros / microsPerDay :=
  Date.toDays_ofDays _

theorem date_of_sameDay {a b : Naive} (h : a.micros / microsPerDay = b.micros / microsPerDay) :
    a.date = b.date := by
  rw [Naive.date, Naive.date, h]

theorem dayText_inj {a b : Naive} :
    dayText a = dayText b ↔ a.micros / microsPerDay = b.micros / microsPerDay := by
  constructor
  · intro h
    have hlist := String.ofList_injective h
    rw [← List.append_nil (monthDay a), ← List.append_nil (monthDay b)] at hlist
    rw [← date_toDays, ← date_toDays]
    exact (dateText_append_inj hlist).1
  · intro h
    rw [dayText, dayText, monthDay, monthDay, date_of_sameDay h]

theorem hour_eq (n : Naive) :
    n.micros / 3600000000 = n.micros / microsPerDay * 24 + n.hour := by
  unfold Naive.hour Naive.timeOfDay microsPerDay
  omega

theorem hourText_inj {a b : Naive} :
    hourText a = hourText b ↔ a.micros / 3600000000 = b.micros / 3600000000 := by
  have ha := a.hour_lt
  have hb := b.hour_lt
  rw [hour_eq, hour_eq]
  constructor
  · intro h
    -- the date and the two digits of the hour are read back from the label
    obtain ⟨hdays, hrest⟩ := dateText_append_inj (String.ofList_injective h)
    rw [date_toDays, date_toDays] at hdays
    have hhour := List.append_inj_left (List.cons.inj hrest).2 (by rw [pad_length, pad_length])
    rw [hdays, pad_inj (by omega) (by omega) hhour]
  · intro h
    have hdays : a.micros / microsPerDay = b.micros / microsPerDay := by omega
    have hhour : a.hour = b.hour := by omega
    rw [hourText, hourText, monthDay, monthDay, date_of_sameDay hdays, hhour]

theorem weekStart_lt (n : Naive) : n.micros - n.date.weekday * microsPerDay < maxMicros :=
  Nat.lt_of_le_of_lt (Nat.sub_le _ _) n.inRange

/-- The Monday of a week, at the time of day of the instant it is counted from. -/
def weekStart (n : Naive) : Naive :=
  ⟨n.micros - n.date.weekday * microsPerDay, weekStart_lt n⟩

theorem weekday_le (n : Naive) : n.date.weekday * microsPerDay ≤ n.micros := by
  have hdays : n.date.weekday ≤ n.micros / microsPerDay := by
    rw [Date.weekday, date_toDays]
    exact Nat.mod_le _ _
  exact Nat.le_trans (Nat.mul_le_mul_right _ hdays) (Nat.div_mul_le_self _ _)

/-- The Monday is never before year 1, so a week always has its name. -/
theorem ofMicros?_weekStart (n : Naive) :
    Naive.ofMicros? ((n.micros : Int) - n.date.weekday * microsPerDay) = some (weekStart n) := by
  apply Naive.ofMicros?_eq_some_iff.mpr
  show ((n.micros - n.date.weekday * microsPerDay : Nat) : Int) = _
  rw [Nat.cast_sub (weekday_le n), Nat.cast_mul]

theorem weekStart_day (n : Naive) :
    (weekStart n).micros / microsPerDay = 7 * (n.micros / (7 * microsPerDay)) := by
  have hdays := date_toDays n
  show (n.micros - n.date.weekday * microsPerDay) / microsPerDay = _
  rw [Date.weekday, hdays]
  unfold microsPerDay
  omega

/-- The name of the period of an instant. -/
def periodName (value : Naive) (bucket : String) : String :=
  if bucket = "hour" then hourText value
  else if bucket = "day" then dayText value
  else dayText (weekStart value)

theorem trendPeriod_eq (value : Naive) (bucket : String) :
    trendPeriod value bucket = .ok (periodName value bucket) := by
  unfold trendPeriod periodName
  rw [ofMicros?_weekStart]
  split_ifs <;> rfl

/-- Periods have different names. -/
theorem periodName_eq_iff (a b : Naive) (bucket : String) :
    periodName a bucket = periodName b bucket ↔ SamePeriod bucket a b := by
  unfold periodName SamePeriod periodMicros
  split_ifs
  · exact hourText_inj
  · exact dayText_inj
  · rw [dayText_inj, weekStart_day, weekStart_day]
    omega

/-! ## Counting -/

/-- Counts of one period. -/
structure TrendEntry where
  period : String
  total : Nat
  succeeded : Nat
  failed : Nat
  error : Nat

/-- One more run, with this phase. -/
def TrendEntry.add (entry : TrendEntry) (phase : Json) : TrendEntry :=
  let counted := { entry with total := entry.total + 1 }
  if phase.pyEq (.str "Succeeded") then { counted with succeeded := entry.succeeded + 1 }
  else if phase.pyEq (.str "Failed") then { counted with failed := entry.failed + 1 }
  else if phase.pyEq (.str "Error") then { counted with error := entry.error + 1 }
  else counted

/-- `numerator / denominator`, or nothing over nothing. -/
def rate (numerator denominator : Nat) : Option PyFloat :=
  if denominator = 0 then none else some (PyFloat.ofRat (numerator / denominator))

/-- What is reported of one period. -/
structure Trend extends TrendEntry where
  completed : Nat
  successRate : Option PyFloat
  failureRate : Option PyFloat

def trendOf (entry : TrendEntry) : Trend :=
  let terminal := entry.succeeded + entry.failed + entry.error
  { entry with
    completed := terminal
    successRate := rate entry.succeeded terminal
    failureRate := rate (entry.failed + entry.error) terminal }

/-- One pass of the counting loop; a run without an event time is left out. -/
def countRow (bucket : String) (grouped : OrderedDict String TrendEntry) (row : LedgerRow) :
    Except Exc (OrderedDict String TrendEntry) :=
  match timestamp row with
  | none => .ok grouped
  | some value => do
      let period ← trendPeriod value bucket
      let entry := (grouped.get? period).getD ⟨period, 0, 0, 0, 0⟩
      return grouped.set period (entry.add row.shared.phase)

def historicalTrends (rows : List LedgerRow) (bucket : String) : Except Exc (List Trend) := do
  if bucket ∉ trendBuckets then
    raise .valueError "bucket must be one of: day, hour, week"
  else
    let grouped ← rows.foldlM (countRow bucket) OrderedDict.empty
    let periods := grouped.entries.insertionSort fun a b => a.1 ≤ b.1
    return periods.map fun e => trendOf e.2

/-! ## What is counted -/

/-- The period a run is counted in, if it has an event time. -/
def rowPeriod (bucket : String) (row : LedgerRow) : Option String :=
  (timestamp row).map fun value => periodName value bucket

/-- How many runs are reported for a period; one without runs is not reported. -/
def totalOf (trends : List Trend) (period : String) : Nat :=
  ((trends.find? fun t => t.period = period).map fun t => t.total).getD 0

/-- The runs counted in a period, in the order of the ledger. -/
def rowsIn (bucket period : String) (rows : List LedgerRow) : List LedgerRow :=
  Grouping.group (rowPeriod bucket) period rows

theorem rowsIn_append_of_eq {bucket period : String} (rows : List LedgerRow) {row : LedgerRow}
    (h : rowPeriod bucket row = some period) :
    rowsIn bucket period (rows ++ [row]) = rowsIn bucket period rows ++ [row] := by
  rw [rowsIn, Grouping.group_append_singleton, if_pos h, rowsIn]

theorem rowsIn_append_of_ne {bucket period : String} (rows : List LedgerRow) {row : LedgerRow}
    (h : rowPeriod bucket row ≠ some period) :
    rowsIn bucket period (rows ++ [row]) = rowsIn bucket period rows := by
  rw [rowsIn, Grouping.group_append_singleton, if_neg h, rowsIn]

/-- The entry of a period with these runs. -/
def tally (period : String) (rows : List LedgerRow) : TrendEntry :=
  rows.foldl (fun entry row => entry.add row.shared.phase) ⟨period, 0, 0, 0, 0⟩

theorem tally_append_singleton (period : String) (rows : List LedgerRow) (row : LedgerRow) :
    tally period (rows ++ [row]) = (tally period rows).add row.shared.phase := by
  rw [tally, List.foldl_append]
  rfl

@[simp] theorem TrendEntry.add_total (entry : TrendEntry) (phase : Json) :
    (entry.add phase).total = entry.total + 1 := by
  unfold TrendEntry.add
  dsimp only
  split_ifs <;> rfl

@[simp] theorem TrendEntry.add_period (entry : TrendEntry) (phase : Json) :
    (entry.add phase).period = entry.period := by
  unfold TrendEntry.add
  dsimp only
  split_ifs <;> rfl

@[simp] theorem tally_period (period : String) (rows : List LedgerRow) :
    (tally period rows).period = period := by
  induction rows using List.reverseRecOn with
  | nil => rfl
  | append_singleton rows row ih => rw [tally_append_singleton, TrendEntry.add_period, ih]

@[simp] theorem tally_total (period : String) (rows : List LedgerRow) :
    (tally period rows).total = rows.length := by
  induction rows using List.reverseRecOn with
  | nil => rfl
  | append_singleton rows row ih =>
      rw [tally_append_singleton, TrendEntry.add_total, ih, List.length_append]
      rfl

/-- Invariant of the counting loop over the runs seen so far: a period with runs has their entry,
    and one without runs has none. -/
def Tallied (bucket : String) (rows : List LedgerRow) (grouped : OrderedDict String TrendEntry) :
    Prop :=
  ∀ period, grouped.get? period =
    if rowsIn bucket period rows = [] then none else some (tally period (rowsIn bucket period rows))

theorem Tallied.empty (bucket : String) : Tallied bucket [] OrderedDict.empty := fun _ => rfl

/-- The entry a pass starts from: the one of its period, or a new one. -/
theorem Tallied.getD {bucket : String} {rows : List LedgerRow}
    {grouped : OrderedDict String TrendEntry} (h : Tallied bucket rows grouped) (period : String) :
    (grouped.get? period).getD ⟨period, 0, 0, 0, 0⟩ = tally period (rowsIn bucket period rows) := by
  rw [h period]
  split_ifs with hrows
  · rw [hrows]
    rfl
  · rfl

/-- One pass counts its run, in its period and in no other. -/
theorem Tallied.countRow {bucket : String} {rows : List LedgerRow}
    {grouped : OrderedDict String TrendEntry} (h : Tallied bucket rows grouped) (row : LedgerRow) :
    ∃ grouped', countRow bucket grouped row = .ok grouped' ∧
      Tallied bucket (rows ++ [row]) grouped' := by
  unfold Consumer.countRow
  cases htime : timestamp row with
  | none =>
      -- a row without a usable timestamp is skipped
      have hperiod : rowPeriod bucket row = none := by rw [rowPeriod, htime, Option.map_none]
      refine ⟨grouped, rfl, fun period => ?_⟩
      rw [rowsIn_append_of_ne rows (by rw [hperiod]; simp)]
      exact h period
  | some value =>
      have hperiod : rowPeriod bucket row = some (periodName value bucket) := by
        rw [rowPeriod, htime, Option.map_some]
      dsimp only
      rw [trendPeriod_eq, ok_bind, pure_eq_ok, h.getD]
      refine ⟨_, rfl, fun period => ?_⟩
      rw [OrderedDict.get?_set]
      -- the entry of the row's own period is the one that changes
      by_cases hp : period = periodName value bucket
      · subst hp
        rw [if_pos rfl, rowsIn_append_of_eq rows hperiod, if_neg (by simp),
          tally_append_singleton]
      · have hother : rowPeriod bucket row ≠ some period := by
          rw [hperiod, Ne, Option.some.injEq]
          exact Ne.symm hp
        rw [if_neg hp, rowsIn_append_of_ne rows hother]
        exact h period

/-- The loop counts every run. -/
theorem Tallied.foldlM {bucket : String} (rest : List LedgerRow) {rows : List LedgerRow}
    {grouped : OrderedDict String TrendEntry} (h : Tallied bucket rows grouped) :
    ∃ grouped', rest.foldlM (Consumer.countRow bucket) grouped = .ok grouped' ∧
      Tallied bucket (rows ++ rest) grouped' := by
  induction rest generalizing rows grouped with
  | nil => exact ⟨grouped, rfl, by rwa [List.append_nil]⟩
  | cons row rest ih =>
      obtain ⟨next, hnext, htallied⟩ := h.countRow row
      obtain ⟨grouped', hloop, htallied'⟩ := ih htallied
      refine ⟨grouped', ?_, ?_⟩
      · rw [List.foldlM_cons, hnext, ok_bind, hloop]
      · rwa [List.append_assoc] at htallied'

/-! ## What is reported -/

/-- The reported periods: those with runs, in increasing order. -/
structure Periods (bucket : String) (rows : List LedgerRow) (periods : List String) : Prop where
  increasing : periods.Pairwise (· < ·)
  mem_iff : ∀ period, period ∈ periods ↔ ∃ row ∈ rows, rowPeriod bucket row = some period

theorem Periods.nodup {bucket : String} {rows : List LedgerRow} {periods : List String}
    (h : Periods bucket rows periods) : periods.Nodup :=
  h.increasing.imp fun hlt => ne_of_lt hlt

theorem sorted_periods {bucket : String} {rows : List LedgerRow}
    {grouped : OrderedDict String TrendEntry} (h : Tallied bucket rows grouped) :
    Periods bucket rows
      ((grouped.entries.insertionSort fun a b => a.1 ≤ b.1).map Prod.fst) := by
  have hperm := List.perm_insertionSort (fun a b : String × TrendEntry => a.1 ≤ b.1) grouped.entries
  refine ⟨?_, fun period => ?_⟩
  · have : Std.Total fun a b : String × TrendEntry => a.1 ≤ b.1 := ⟨fun a b => le_total a.1 b.1⟩
    have : IsTrans (String × TrendEntry) fun a b => a.1 ≤ b.1 := ⟨fun _ _ _ => le_trans⟩
    -- sorted and without a repeated key, the periods are strictly increasing
    have hle : ((grouped.entries.insertionSort fun a b => a.1 ≤ b.1).map Prod.fst).Pairwise (· ≤ ·) :=
      List.pairwise_map.mpr (List.pairwise_insertionSort _ _)
    have hne : ((grouped.entries.insertionSort fun a b => a.1 ≤ b.1).map Prod.fst).Pairwise (· ≠ ·) :=
      (hperm.map Prod.fst).nodup_iff.mpr grouped.nodupKeys
    exact (hle.and hne).imp fun h => lt_of_le_of_ne h.1 h.2
  · rw [(hperm.map Prod.fst).mem_iff]
    -- a period has an entry when some row falls in it
    have hget : period ∈ grouped.entries.map Prod.fst ↔ (grouped.get? period).isSome = true := by
      rw [Option.isSome_iff_exists, List.mem_map]
      simp only [OrderedDict.get?_eq_some_iff]
      constructor
      · rintro ⟨e, he, hp⟩
        exact ⟨e.2, hp ▸ he⟩
      · rintro ⟨entry, he⟩
        exact ⟨_, he, rfl⟩
    rw [hget, h period]
    split_ifs with hrows
    · refine iff_of_false (by simp) ?_
      rintro ⟨row, hrow, hperiod⟩
      have hmem : row ∈ rowsIn bucket period rows := Grouping.mem_group.mpr ⟨hrow, hperiod⟩
      rw [hrows] at hmem
      exact absurd hmem List.not_mem_nil
    · refine ⟨fun _ => ?_, fun _ => rfl⟩
      obtain ⟨row, hrow⟩ := List.exists_mem_of_ne_nil _ hrows
      exact ⟨row, Grouping.mem_group.mp hrow⟩

/-- Every period with runs is reported once, in order, with the entry of its runs. -/
theorem historicalTrends_spec (rows : List LedgerRow) {bucket : String}
    (hbucket : bucket ∈ trendBuckets) :
    ∃ periods, Periods bucket rows periods ∧
      historicalTrends rows bucket =
        .ok (periods.map fun period => trendOf (tally period (rowsIn bucket period rows))) := by
  obtain ⟨grouped, hloop, htallied⟩ := (Tallied.empty bucket).foldlM rows
  rw [List.nil_append] at htallied
  refine ⟨_, sorted_periods htallied, ?_⟩
  rw [historicalTrends, if_neg (not_not.mpr hbucket), hloop, ok_bind, pure_eq_ok, Except.ok.injEq,
    List.map_map]
  apply List.map_congr_left
  -- the entry stored under a period is the tally of the rows of that period
  intro e he
  have hmem := (List.perm_insertionSort (fun a b : String × TrendEntry => a.1 ≤ b.1)
    grouped.entries).subset he
  have hget := (OrderedDict.get?_eq_some_iff grouped e.1 e.2).mpr hmem
  have hentry := htallied.getD e.1
  rw [hget, Option.getD_some] at hentry
  rw [Function.comp_apply, ← hentry]

theorem find?_map_of_mem {periods : List String} {period : String} (hmem : period ∈ periods)
    {f : String → Trend} (hf : ∀ name, (f name).period = name) :
    (periods.map f).find? (fun t => t.period = period) = some (f period) := by
  rw [List.find?_map]
  have hfind : periods.find? ((fun t : Trend => decide (t.period = period)) ∘ f) = some period := by
    induction periods with
    | nil => exact absurd hmem List.not_mem_nil
    | cons name periods ih =>
        rw [List.find?_cons]
        by_cases h : name = period
        · rw [Function.comp_apply, hf, decide_eq_true h, h]
        · rw [Function.comp_apply, hf, decide_eq_false h]
          exact ih ((List.mem_cons.mp hmem).resolve_left (Ne.symm h))
  rw [hfind, Option.map_some]

/-- Every period's total is the number of runs whose event time is in it. -/
theorem historicalTrends_total (rows : List LedgerRow) {bucket : String}
    (hbucket : bucket ∈ trendBuckets) :
    ∃ trends, historicalTrends rows bucket = .ok trends ∧
      ∀ period, totalOf trends period = rows.countP fun row => rowPeriod bucket row = some period := by
  obtain ⟨periods, hperiods, htrends⟩ := historicalTrends_spec rows hbucket
  refine ⟨_, htrends, fun period => ?_⟩
  have hname (name : String) :
      (trendOf (tally name (rowsIn bucket name rows))).period = name := tally_period _ _
  rw [totalOf, List.countP_eq_length_filter]
  by_cases hmem : period ∈ periods
  · rw [find?_map_of_mem hmem hname, Option.map_some, Option.getD_some]
    exact tally_total _ _
  -- a period that is not listed counts nothing, and no row falls in it
  · have hfind : (periods.map fun name => trendOf (tally name (rowsIn bucket name rows))).find?
        (fun t => t.period = period) = none := by
      rw [List.find?_eq_none]
      rintro t ht
      obtain ⟨name, hin, rfl⟩ := List.mem_map.mp ht
      rw [hname, decide_eq_true_eq]
      rintro rfl
      exact hmem hin
    have hrows : rows.filter (fun row => rowPeriod bucket row = some period) = [] := by
      rw [List.filter_eq_nil_iff]
      intro row hrow hperiod
      exact hmem ((hperiods.mem_iff period).mpr ⟨row, hrow, of_decide_eq_true hperiod⟩)
    rw [hfind, hrows]
    rfl

/-! ## Where a run is counted -/

/-- Adding the run to a ledger raises the total of this period by one and no other. -/
def CountsRun (row : LedgerRow) (bucket period : String) : Prop :=
  ∀ before after : List LedgerRow, ∃ trends trends',
    historicalTrends (before ++ after) bucket = .ok trends ∧
      historicalTrends (before ++ row :: after) bucket = .ok trends' ∧
      ∀ name, totalOf trends' name = totalOf trends name + if name = period then 1 else 0

theorem countsRun_iff {row : LedgerRow} {bucket : String} (hbucket : bucket ∈ trendBuckets)
    (period : String) : CountsRun row bucket period ↔ rowPeriod bucket row = some period := by
  constructor
  -- the run alone in the ledger already tells its period
  · intro h
    obtain ⟨trends, trends', hwithout, hwith, htotal⟩ := h [] []
    obtain ⟨_, hwithout', hcount⟩ := historicalTrends_total [] hbucket
    obtain ⟨_, hwith', hcount'⟩ := historicalTrends_total [row] hbucket
    rw [List.append_nil, hwithout', Except.ok.injEq] at hwithout
    rw [List.nil_append, hwith', Except.ok.injEq] at hwith
    subst hwithout hwith
    have hone := htotal period
    rw [hcount, hcount', if_pos rfl, List.countP_singleton] at hone
    by_contra hne
    rw [if_neg (by simpa using hne)] at hone
    exact absurd hone (by simp)
  · intro h before after
    obtain ⟨trends, hwithout, hcount⟩ := historicalTrends_total (before ++ after) hbucket
    obtain ⟨trends', hwith, hcount'⟩ := historicalTrends_total (before ++ row :: after) hbucket
    refine ⟨trends, trends', hwithout, hwith, fun name => ?_⟩
    have hname : (rowPeriod bucket row = some name) ↔ name = period := by
      rw [h, Option.some.injEq]
      exact eq_comm
    rw [hcount, hcount', List.countP_append, List.countP_append, List.countP_cons]
    simp only [hname, decide_eq_true_eq]
    omega

/-! ## Reading a finish -/

/-- The instant with its fraction of a second dropped. -/
def floorSecond (n : Naive) : Naive :=
  ⟨n.micros - n.microsecond, Nat.lt_of_le_of_lt (Nat.sub_le _ _) n.inRange⟩

theorem floorSecond_of_whole {n : Naive} (h : n.microsecond = 0) : floorSecond n = n := by
  rw [Naive.ext_iff]
  show n.micros - n.microsecond = n.micros
  rw [h, Nat.sub_zero]

/-- A fraction stands between the seconds and the `Z`, and the text is not read. -/
theorem strptime_isoformatZ_fraction {utc : Naive} (h : utc.microsecond ≠ 0) :
    strptime (isoformatZ utc) = none := by
  have htext : (isoformatZ utc).toList = pad 4 utc.date.year ++ monthDay utc ++
      ('T' :: hms utc ++ '.' :: pad 6 utc.microsecond ++ ['Z']) := by
    rw [isoformatZ, String.toList_ofList, if_neg h]
    simp only [List.append_assoc, List.cons_append]
  refine strptime_tail (List.cons_ne_nil _ _) ?_ htext
  intro c hc
  rcases List.mem_cons.mp hc with rfl | hc
  · decide
  · obtain ⟨d, _, rfl⟩ := digitVal?_of_mem_pad hc
    exact ⟨digit_ne (by decide) d, digit_ne (by decide) d⟩

/-- A ledger row that was first and last seen at these times. -/
def ledgerRow (shared : SharedColumns) (first last : Stamp) : LedgerRow :=
  ⟨shared, .str first.text, .str last.text⟩

/-- The event time is the finish if it is a whole second, and otherwise the last sighting. -/
theorem timestamp_ledgerRow {shared : SharedColumns} {utc : Naive}
    (hfinished : shared.finishedAt = .str (isoformatZ utc)) (first last : Stamp) :
    timestamp (ledgerRow shared first last) =
      some (if utc.microsecond = 0 then utc else last.naive) := by
  rw [timestamp, ledgerRow, hfinished]
  split_ifs with h
  · have hread : readColumn (.str (isoformatZ utc)) = some utc := by
      rw [readColumn_str, strptime_isoformatZ_whole h]
    rw [List.findSome?_cons_of_isSome (by rw [hread]; rfl), hread]
  · have hread : readColumn (.str (isoformatZ utc)) = none := by
      rw [readColumn_str, strptime_isoformatZ_fraction h]
    have hlast : readColumn (.str last.text) = some last.naive := by
      rw [readColumn_str, Stamp.strptime_text]
    rw [List.findSome?_cons_of_isNone (by rw [hread]; rfl),
      List.findSome?_cons_of_isSome (by rw [hlast]; rfl), hlast]

/-- A finish is counted in its period when it is a whole second, or when the last sighting happens
    to be in the same period. -/
theorem countsRun_ledgerRow {shared : SharedColumns} {utc : Naive}
    (hfinished : shared.finishedAt = .str (isoformatZ utc)) (first last : Stamp) {bucket : String}
    (hbucket : bucket ∈ trendBuckets) :
    CountsRun (ledgerRow shared first last) bucket (periodName utc bucket) ↔
      utc.microsecond = 0 ∨ SamePeriod bucket last.naive utc := by
  rw [countsRun_iff hbucket, rowPeriod, timestamp_ledgerRow hfinished, Option.map_some,
    Option.some.injEq, periodName_eq_iff]
  by_cases h : utc.microsecond = 0
  · rw [if_pos h]
    exact ⟨fun _ => Or.inl h, fun _ => rfl⟩
  · rw [if_neg h]
    exact ⟨Or.inr, fun hor => hor.resolve_left h⟩

/-- The finish is read back to the second, whatever the times of the ledger, when it is a whole
    second. -/
theorem timestamp_reads_finish_iff {shared : SharedColumns} {utc : Naive}
    (hfinished : shared.finishedAt = .str (isoformatZ utc)) :
    (∀ first last : Stamp, timestamp (ledgerRow shared first last) = some (floorSecond utc)) ↔
      utc.microsecond = 0 := by
  constructor
  · intro h
    by_contra hne
    -- two sightings at different times cannot both be the finish
    let early : Stamp := ⟨stampMin, by decide, by decide⟩
    let late : Stamp := ⟨stampMin + 1, by decide, by decide⟩
    have hearly := h early early
    have hlate := h late late
    rw [timestamp_ledgerRow hfinished, if_neg hne] at hearly hlate
    have hsame : early.naive = late.naive := Option.some.inj (hearly.trans hlate.symm)
    exact absurd (congrArg Naive.micros hsame) (by decide)
  · intro h first last
    rw [timestamp_ledgerRow hfinished, if_pos h, floorSecond_of_whole h]

/-! ## Runs of the exporter -/

/-- The UTC instant an object says it finished at. -/
def FinishedAt (wf : Json) (utc : Naive) : Prop :=
  ∃ naive offset, parseTs ((wf.get "status").get "finishedAt") = some ⟨naive, some offset⟩ ∧
    astimezoneUtc naive offset = .ok utc

variable {Bytes : Type} {py : Platform Bytes}

/-- The finish column of a row is the text of the instant the object finished at. -/
theorem FinishedAt.column {wf : Json} {utc : Naive} (h : FinishedAt wf utc)
    {clusterName observedAt : String} {row : SnapshotRow}
    (hrow : toRow py wf clusterName observedAt = .ok row) :
    row.shared.finishedAt = .str (isoformatZ utc) := by
  obtain ⟨_, step, createdAt, startedAt, finishedAt, duration, _, _, _, hnormalize, _, rfl⟩ :=
    toRow_eq_ok_iff.mp hrow
  obtain ⟨naive, offset, hparse, hutc⟩ := h
  rw [normalizeTimestamp_of_usable hparse, hutc] at hnormalize
  show Json.ofStr? finishedAt = _
  rw [← Except.ok.inj hnormalize]
  rfl

theorem FinishedAt.unique {wf : Json} {utc utc' : Naive} (h : FinishedAt wf utc)
    (h' : FinishedAt wf utc') : utc = utc' := by
  obtain ⟨naive, offset, hparse, hutc⟩ := h
  obtain ⟨naive', offset', hparse', hutc'⟩ := h'
  obtain ⟨rfl, rfl⟩ : naive = naive' ∧ offset = offset' := by
    rw [hparse, Option.some.injEq, DateTime.mk.injEq, Option.some.injEq] at hparse'
    exact hparse'
  exact Except.ok.inj (hutc.symm.trans hutc')

theorem finishedAt_of_not_null {wf : Json} {clusterName observedAt : String} {row : SnapshotRow}
    (hrow : toRow py wf clusterName observedAt = .ok row)
    (hfinished : row.shared.finishedAt ≠ .null) : ∃ utc, FinishedAt wf utc := by
  have hcolumn := (timesNormalized_toRow hrow).finishedAt
  by_cases hu : Usable ((wf.get "status").get "finishedAt")
  · obtain ⟨_, _, hrange⟩ := (toRow_ok_iff.mp ⟨row, hrow⟩).2
    obtain ⟨naive, offset, hparse⟩ := hu
    obtain ⟨utc, hutc⟩ := (astimezoneUtc_ok_iff _ _).mpr (hrange.finishedAt _ _ hparse)
    exact ⟨utc, naive, offset, hparse, hutc⟩
  · exact absurd (hcolumn.unusable hu) hfinished

/-- A finished run is counted in the period of its finish exactly when the finish is a whole second
    or the last sighting is in the same period; its finish is read back exactly when it is a whole
    second. -/
theorem trends_bucket_iff {wf : Json} {clusterName observedAt : String} {row : SnapshotRow}
    (hrow : toRow py wf clusterName observedAt = .ok row)
    (hfinished : row.shared.finishedAt ≠ .null) {bucket : String}
    (hbucket : bucket ∈ trendBuckets) :
    ∃ utc period, FinishedAt wf utc ∧ trendPeriod utc bucket = .ok period ∧
      (∀ first last : Stamp, CountsRun (ledgerRow row.shared first last) bucket period ↔
        utc.microsecond = 0 ∨ SamePeriod bucket last.naive utc) ∧
      ((∀ first last : Stamp,
        timestamp (ledgerRow row.shared first last) = some (floorSecond utc)) ↔
          utc.microsecond = 0) := by
  obtain ⟨utc, hutc⟩ := finishedAt_of_not_null hrow hfinished
  have htext := hutc.column hrow
  refine ⟨utc, periodName utc bucket, hutc, trendPeriod_eq utc bucket, fun first last => ?_, ?_⟩
  · exact countsRun_ledgerRow htext first last hbucket
  · exact timestamp_reads_finish_iff htext

/-- A run that finished one second before the end of a day. -/
def promptWorkflow : Json :=
  Reference.workflow "u-1" (.obj [("phase", .str "Succeeded"),
    ("finishedAt", .str "2026-01-02T00:59:59+01:00")])

def promptFinish : Naive := ⟨63902908799000000, by decide⟩

theorem finishedAt_prompt : FinishedAt promptWorkflow promptFinish :=
  ⟨⟨63902912399000000, by decide⟩, 3600000000, by decide, by decide⟩

/-- It is counted on that day and read back as it was, whenever it was seen. -/
theorem trends_bucket_iff_prompt :
    ∃ row, toRow Reference.platform promptWorkflow "alpha" "" = .ok row ∧
      (∀ first last : Stamp,
        CountsRun (ledgerRow row.shared first last) "day" "2026-01-01") ∧
      ∀ first last : Stamp,
        timestamp (ledgerRow row.shared first last) = some promptFinish := by
  obtain ⟨row, hrow⟩ : ∃ row, toRow Reference.platform promptWorkflow "alpha" "" = .ok row :=
    ⟨_, rfl⟩
  have hfinished : row.shared.finishedAt ≠ .null := by
    rw [finishedAt_prompt.column hrow]
    exact Json.noConfusion
  obtain ⟨utc, period, hutc, hperiod, hcounts, hreads⟩ :=
    trends_bucket_iff hrow hfinished (show "day" ∈ trendBuckets by decide)
  obtain rfl := hutc.unique finishedAt_prompt
  have hwhole : promptFinish.microsecond = 0 := by decide
  have hname : period = "2026-01-01" := by
    rw [trendPeriod_eq, Except.ok.injEq] at hperiod
    rw [← hperiod]
    decide
  subst hname
  refine ⟨row, hrow, fun first last => (hcounts first last).mpr (.inl hwhole), fun first last => ?_⟩
  rw [hreads.mpr hwhole first last, floorSecond_of_whole hwhole]

/-- A run that finished in the last half second of a day. -/
def lateWorkflow : Json :=
  Reference.workflow "u-1" (.obj [("phase", .str "Succeeded"),
    ("finishedAt", .str "2026-01-01T23:59:59.500Z")])

def lateFinish : Naive := ⟨63902908799500000, by decide⟩

theorem finishedAt_late : FinishedAt lateWorkflow lateFinish :=
  ⟨lateFinish, 0, by decide, astimezoneUtc_zero lateFinish⟩

theorem toRow_late : ∃ row, toRow Reference.platform lateWorkflow "alpha" "" = .ok row :=
  ⟨_, rfl⟩

/-- The next midnight, when the run was seen finished. -/
def nextMidnight : Stamp := ⟨63902908800, by decide, by decide⟩

/-- It finished on one day, and is counted on the next. -/
theorem fractional_finish_counted_next_day :
    ∃ row, toRow Reference.platform lateWorkflow "alpha" "" = .ok row ∧
      row.shared.finishedAt = .str "2026-01-01T23:59:59.500000Z" ∧
      FinishedAt lateWorkflow lateFinish ∧ trendPeriod lateFinish "day" = .ok "2026-01-01" ∧
      nextMidnight.text = "2026-01-02T00:00:00Z" ∧
      ¬ CountsRun (ledgerRow row.shared nextMidnight nextMidnight) "day" "2026-01-01" ∧
      CountsRun (ledgerRow row.shared nextMidnight nextMidnight) "day" "2026-01-02" ∧
      strptime "2026-01-01T23:59:59.500000Z" = none := by
  obtain ⟨row, hrow⟩ := toRow_late
  have htext := finishedAt_late.column hrow
  have hiso : isoformatZ lateFinish = "2026-01-01T23:59:59.500000Z" := by decide
  have hperiod : periodName lateFinish "day" = "2026-01-01" := by decide
  have hnext : periodName nextMidnight.naive "day" = "2026-01-02" := by decide
  have hmidnight : nextMidnight.text = "2026-01-02T00:00:00Z" := by decide
  have hfraction : lateFinish.microsecond ≠ 0 := by decide
  have hunread : strptime (isoformatZ lateFinish) = none := strptime_isoformatZ_fraction hfraction
  have hcounted : rowPeriod "day" (ledgerRow row.shared nextMidnight nextMidnight) =
      some "2026-01-02" := by
    rw [rowPeriod, timestamp_ledgerRow htext, if_neg hfraction, Option.map_some, hnext]
  refine ⟨row, hrow, by rw [htext, hiso], finishedAt_late, ?_, hmidnight, ?_, ?_, ?_⟩
  · rw [trendPeriod_eq, hperiod]
  · rw [countsRun_iff (by decide), hcounted]
    decide
  · rw [countsRun_iff (by decide), hcounted]
  · rw [← hiso, hunread]

end ArgoExporter.Consumer
