/-
  ArgoExporter.Lib.Calendar

  The proleptic Gregorian calendar as a bijection between day counts and
  valid dates.  Day `0` is 0001-01-01.  A `Date` carries its own validity, so
  `ofDays` and `toDays` need no side conditions, and the order on dates is the
  order on day counts as well as the lexicographic order of the three fields.
-/

import Mathlib.Order.Basic
import Mathlib.Tactic.IntervalCases
import Mathlib.Tactic.Ring

namespace ArgoExporter.Lib

/-! ## Years -/

/-- Gregorian leap-year rule. -/
def isLeap (y : Nat) : Bool :=
  y % 4 == 0 && (y % 100 != 0 || y % 400 == 0)

/-- Number of days in year `y`. -/
def daysInYear (y : Nat) : Nat := if isLeap y then 366 else 365

/-- Days from 0001-01-01 to the first day of year `y`. -/
def daysBeforeYear (y : Nat) : Nat :=
  (y - 1) * 365 + (y - 1) / 4 - (y - 1) / 100 + (y - 1) / 400

/-- Year containing day `n`, by 400-, 100-, 4- and 1-year cycles. -/
def yearOfDays (n : Nat) : Nat :=
  let r400 := n % 146097
  let c100 := min (r400 / 36524) 3
  let r100 := r400 - 36524 * c100
  let c4 := r100 / 1461
  let r4 := r100 - 1461 * c4
  n / 146097 * 400 + c100 * 100 + c4 * 4 + min (r4 / 365) 3 + 1

theorem isLeap_iff (y : Nat) :
    isLeap y = true ↔ y % 4 = 0 ∧ (y % 100 ≠ 0 ∨ y % 400 = 0) := by
  simp [isLeap]

/-- A quotient moves on exactly when the next number is a multiple of the divisor. -/
theorem succ_div_eq (p k : Nat) : (p + 1) / k = p / k + if (p + 1) % k = 0 then 1 else 0 := by
  rw [Nat.succ_div]
  congr 1
  exact if_congr Nat.dvd_iff_mod_eq_zero rfl rfl

theorem daysBeforeYear_succ {y : Nat} (hy : 1 ≤ y) :
    daysBeforeYear (y + 1) = daysBeforeYear y + daysInYear y := by
  obtain ⟨p, rfl⟩ : ∃ p, y = p + 1 := ⟨y - 1, by omega⟩
  have h4 := succ_div_eq p 4
  have h100 := succ_div_eq p 100
  have h400 := succ_div_eq p 400
  have hle : p / 100 ≤ p / 4 := Nat.div_le_div_left (by decide) (by decide)
  have hmod : (p + 1) % 100 = 0 → (p + 1) % 4 = 0 := by omega
  have hmod' : (p + 1) % 400 = 0 → (p + 1) % 100 = 0 := by omega
  simp only [daysBeforeYear, daysInYear, isLeap_iff, Nat.add_sub_cancel]
  rw [h4, h100, h400]
  clear h4 h100 h400
  generalize p / 4 = a at *
  generalize p / 100 = b at *
  generalize p / 400 = c at *
  -- only the three leap rules are left
  by_cases hy4 : (p + 1) % 4 = 0
  · by_cases hy100 : (p + 1) % 100 = 0
    · by_cases hy400 : (p + 1) % 400 = 0
      · rw [if_pos hy4, if_pos hy100, if_pos hy400, if_pos ⟨hy4, Or.inr hy400⟩]
        omega
      · have hleap : ¬ ((p + 1) % 4 = 0 ∧ ((p + 1) % 100 ≠ 0 ∨ (p + 1) % 400 = 0)) := by
          rintro ⟨_, hnot | h400⟩
          · exact hnot hy100
          · exact hy400 h400
        rw [if_pos hy4, if_pos hy100, if_neg hy400, if_neg hleap]
        omega
    · rw [if_pos hy4, if_neg hy100, if_neg (mt hmod' hy100), if_pos ⟨hy4, Or.inl hy100⟩]
      omega
  · have hy100 : ¬ (p + 1) % 100 = 0 := mt hmod hy4
    rw [if_neg hy4, if_neg hy100, if_neg (mt hmod' hy100), if_neg fun hleap => hy4 hleap.1]
    omega

theorem daysBeforeYear_le {y z : Nat} (hy : 1 ≤ y) (h : y ≤ z) :
    daysBeforeYear y ≤ daysBeforeYear z := by
  induction z, h using Nat.le_induction with
  | base => exact Nat.le_refl _
  | succ k hk ih =>
      rw [daysBeforeYear_succ (Nat.le_trans hy hk)]
      omega

/-- Days before a year given by its place in the 400-, 100- and 4-year cycles. -/
theorem daysBeforeYear_cycles {a b c d : Nat} (hb : b ≤ 3) (hc : c ≤ 24) (hd : d ≤ 3) :
    daysBeforeYear (a * 400 + b * 100 + c * 4 + d + 1) =
      146097 * a + 36524 * b + 1461 * c + 365 * d := by
  have h4 : (a * 400 + b * 100 + c * 4 + d) / 4 = a * 100 + b * 25 + c := by omega
  have h100 : (a * 400 + b * 100 + c * 4 + d) / 100 = a * 4 + b := by omega
  have h400 : (a * 400 + b * 100 + c * 4 + d) / 400 = a := by omega
  simp only [daysBeforeYear, Nat.add_sub_cancel]
  rw [h4, h100, h400]
  omega

/-- A day lies in year `yearOfDays n` and in no other. -/
theorem yearOfDays_spec (n : Nat) :
    1 ≤ yearOfDays n ∧ daysBeforeYear (yearOfDays n) ≤ n ∧
      n < daysBeforeYear (yearOfDays n + 1) := by
  simp only [yearOfDays]
  have hn : 146097 * (n / 146097) + n % 146097 = n := Nat.div_add_mod n 146097
  have hr : n % 146097 < 146097 := Nat.mod_lt _ (by decide)
  generalize n / 146097 = a at *
  generalize n % 146097 = r at *
  -- the last 100-year cycle of 400 years, and the last year of 4, are one day longer
  have hb : min (r / 36524) 3 ≤ 3 := Nat.min_le_right _ _
  have hr100 : r - 36524 * min (r / 36524) 3 ≤ 36524 ∧ 36524 * min (r / 36524) 3 ≤ r ∧
      (min (r / 36524) 3 < 3 → r - 36524 * min (r / 36524) 3 < 36524) := by omega
  generalize min (r / 36524) 3 = b at *
  obtain ⟨h1, h2, h3⟩ := hr100
  generalize hs : r - 36524 * b = s at *
  have hc : s / 1461 ≤ 24 := by omega
  have hs4 : s - 1461 * (s / 1461) ≤ 1460 ∧ 1461 * (s / 1461) ≤ s := by omega
  have hs24 : b < 3 → s / 1461 = 24 → s - 1461 * (s / 1461) < 1460 := by omega
  generalize s / 1461 = c at *
  generalize hu : s - 1461 * c = u at *
  have hd : min (u / 365) 3 ≤ 3 ∧ 365 * min (u / 365) 3 ≤ u ∧
      u < 365 * min (u / 365) 3 + 366 ∧
      (min (u / 365) 3 < 3 → u < 365 * min (u / 365) 3 + 365) := by omega
  generalize min (u / 365) 3 = d at *
  obtain ⟨hd3, hd4, hd5, hd6⟩ := hd
  have hleap : daysInYear (a * 400 + b * 100 + c * 4 + d + 1) = 365 →
      u < 365 * d + 365 := by
    intro h
    by_contra hlt
    have hl : isLeap (a * 400 + b * 100 + c * 4 + d + 1) = true := by
      rw [isLeap_iff]
      omega
    rw [daysInYear, if_pos hl] at h
    exact absurd h (by decide)
  have hyear : daysInYear (a * 400 + b * 100 + c * 4 + d + 1) = 365 ∨
      daysInYear (a * 400 + b * 100 + c * 4 + d + 1) = 366 := by
    unfold daysInYear
    split
    · exact Or.inr rfl
    · exact Or.inl rfl
  rw [daysBeforeYear_succ (Nat.le_add_left 1 _), daysBeforeYear_cycles hb hc hd3]
  omega

theorem yearOfDays_unique {n y : Nat} (h1 : daysBeforeYear y ≤ n)
    (h2 : n < daysBeforeYear (y + 1)) : yearOfDays n = y := by
  obtain ⟨hz, h3, h4⟩ := yearOfDays_spec n
  rcases Nat.lt_trichotomy (yearOfDays n) y with h | h | h
  · have := daysBeforeYear_le (Nat.le_add_left 1 _) (show yearOfDays n + 1 ≤ y from h)
    omega
  · exact h
  · have := daysBeforeYear_le (Nat.le_add_left 1 _) (show y + 1 ≤ yearOfDays n from h)
    omega

/-! ## Months -/

/-- Number of days in month `m` (`1 ≤ m ≤ 12`). -/
def daysInMonth (leap : Bool) : Nat → Nat
  | 2 => if leap then 29 else 28
  | 4 | 6 | 9 | 11 => 30
  | _ => 31

/-- Days of the year before month `m` (`1 ≤ m ≤ 13`). -/
def daysBeforeMonth (leap : Bool) : Nat → Nat
  | 0 | 1 => 0
  | m + 2 => daysBeforeMonth leap (m + 1) + daysInMonth leap (m + 1)

/-- Month containing day `d` of the year (0-based). -/
def monthOfDay (leap : Bool) (d : Nat) : Nat :=
  ((List.range' 1 12).filter fun m => daysBeforeMonth leap m ≤ d).length

theorem daysBeforeMonth_year (y : Nat) : daysBeforeMonth (isLeap y) 13 = daysInYear y := by
  unfold daysInYear
  cases isLeap y <;> decide

theorem daysBeforeMonth_le (leap : Bool) {m k : Nat} (h : m ≤ k) :
    daysBeforeMonth leap m ≤ daysBeforeMonth leap k := by
  induction k, h using Nat.le_induction with
  | base => exact Nat.le_refl _
  | succ k _ ih =>
      cases k with
      | zero => exact ih
      | succ k => exact Nat.le_trans ih (Nat.le_add_right _ _)

theorem daysInMonth_bounds (leap : Bool) (m : Nat) :
    28 ≤ daysInMonth leap m ∧ daysInMonth leap m ≤ 31 := by
  unfold daysInMonth
  split
  · cases leap <;> decide
  all_goals decide

/-- How many of the first `n` months start by day `d` says which of them is the last to. -/
theorem started_months_spec (leap : Bool) (d n : Nat) :
    let k := ((List.range' 1 n).filter fun m => daysBeforeMonth leap m ≤ d).length
    k ≤ n ∧ (k = 0 ∨ daysBeforeMonth leap k ≤ d) ∧ (k = n ∨ d < daysBeforeMonth leap (k + 1)) := by
  induction n with
  | zero => exact ⟨Nat.le_refl _, Or.inl rfl, Or.inl rfl⟩
  | succ n ih =>
      dsimp only at ih ⊢
      rw [List.range'_1_concat, List.filter_append, List.length_append, Nat.add_comm 1 n]
      generalize ((List.range' 1 n).filter fun m => daysBeforeMonth leap m ≤ d).length = k at ih ⊢
      obtain ⟨hle, hstart, hnext⟩ := ih
      by_cases hmonth : daysBeforeMonth leap (n + 1) ≤ d
      · -- months start in order, so all of those before had started too
        have hk : k = n := by
          rcases hnext with hk | hlt
          · exact hk
          · by_contra hne
            have hmono := daysBeforeMonth_le leap (show k + 1 ≤ n + 1 by omega)
            omega
        rw [List.filter_cons_of_pos (by simpa using hmonth), List.filter_nil, hk]
        exact ⟨Nat.le_refl _, Or.inr hmonth, Or.inl rfl⟩
      · rw [List.filter_cons_of_neg (by simpa using hmonth), List.filter_nil]
        refine ⟨Nat.le_succ_of_le hle, hstart, Or.inr ?_⟩
        rcases hnext with hk | hlt
        · rw [hk]
          exact Nat.lt_of_not_le hmonth
        · exact hlt

theorem monthOfDay_spec (leap : Bool) {d : Nat} (hd : d < daysBeforeMonth leap 13) :
    1 ≤ monthOfDay leap d ∧ monthOfDay leap d ≤ 12 ∧
      daysBeforeMonth leap (monthOfDay leap d) ≤ d ∧
      d < daysBeforeMonth leap (monthOfDay leap d + 1) := by
  obtain ⟨hle, hstart, hnext⟩ := started_months_spec leap d 12
  rw [← monthOfDay] at hle hstart hnext
  have hpos : monthOfDay leap d ≠ 0 := by
    intro hzero
    rw [hzero] at hnext
    rcases hnext with habsurd | hlt
    · exact absurd habsurd (by decide)
    · exact absurd hlt (Nat.not_lt_zero d)
  refine ⟨Nat.pos_of_ne_zero hpos, hle, hstart.resolve_left hpos, ?_⟩
  rcases hnext with hlast | hlt
  · rw [hlast]
    exact hd
  · exact hlt

theorem monthOfDay_unique (leap : Bool) {d m : Nat} (hm : 1 ≤ m) (hm' : m ≤ 12)
    (h1 : daysBeforeMonth leap m ≤ d) (h2 : d < daysBeforeMonth leap (m + 1)) :
    monthOfDay leap d = m := by
  have hd : d < daysBeforeMonth leap 13 :=
    Nat.lt_of_lt_of_le h2 (daysBeforeMonth_le leap (by omega))
  obtain ⟨_, _, h3, h4⟩ := monthOfDay_spec leap hd
  rcases Nat.lt_trichotomy (monthOfDay leap d) m with h | h | h
  · have := daysBeforeMonth_le leap (show monthOfDay leap d + 1 ≤ m from h)
    omega
  · exact h
  · have := daysBeforeMonth_le leap (show m + 1 ≤ monthOfDay leap d from h)
    omega

/-! ## Dates -/

/-- A date of the proleptic Gregorian calendar, from year 1 on. -/
@[ext]
structure Date where
  year : Nat
  month : Nat
  day : Nat
  year_pos : 1 ≤ year
  month_pos : 1 ≤ month
  month_le : month ≤ 12
  day_pos : 1 ≤ day
  day_le : day ≤ daysInMonth (isLeap year) month
  deriving DecidableEq

namespace Date

/-- The date with the given fields, if there is one. -/
def mk? (y m d : Nat) : Option Date :=
  if h : 1 ≤ y ∧ (1 ≤ m ∧ m ≤ 12) ∧ 1 ≤ d ∧ d ≤ daysInMonth (isLeap y) m then
    some ⟨y, m, d, h.1, h.2.1.1, h.2.1.2, h.2.2.1, h.2.2.2⟩
  else none

theorem mk?_fields (x : Date) : mk? x.year x.month x.day = some x := by
  rw [mk?, dif_pos ⟨x.year_pos, ⟨x.month_pos, x.month_le⟩, x.day_pos, x.day_le⟩]

theorem fields_of_mk? {y m d : Nat} {x : Date} (h : mk? y m d = some x) :
    x.year = y ∧ x.month = m ∧ x.day = d := by
  unfold mk? at h
  split_ifs at h
  rw [← Option.some.inj h]
  exact ⟨rfl, rfl, rfl⟩

/-- Days from 0001-01-01. -/
def toDays (x : Date) : Nat :=
  daysBeforeYear x.year + (daysBeforeMonth (isLeap x.year) x.month + (x.day - 1))

/-- Day of the year, 0-based. -/
def dayOfYear (x : Date) : Nat := daysBeforeMonth (isLeap x.year) x.month + (x.day - 1)

theorem dayOfYear_lt_succ_month (x : Date) :
    x.dayOfYear < daysBeforeMonth (isLeap x.year) (x.month + 1) := by
  have h1 := x.day_le
  have h2 := x.day_pos
  obtain ⟨m, hm⟩ : ∃ m, x.month = m + 1 := ⟨x.month - 1, by have := x.month_pos; omega⟩
  unfold dayOfYear
  rw [hm] at h1 ⊢
  rw [daysBeforeMonth]
  omega

theorem dayOfYear_lt (x : Date) : x.dayOfYear < daysInYear x.year := by
  rw [← daysBeforeMonth_year]
  exact Nat.lt_of_lt_of_le x.dayOfYear_lt_succ_month
    (daysBeforeMonth_le _ (by have := x.month_le; omega))

theorem toDays_bounds (x : Date) :
    daysBeforeYear x.year ≤ x.toDays ∧ x.toDays < daysBeforeYear (x.year + 1) := by
  have h := x.dayOfYear_lt
  rw [daysBeforeYear_succ x.year_pos]
  unfold toDays
  unfold dayOfYear at h
  omega

/-- The day after the last one of the year-day prefix `dayOfYear` stays inside the year. -/
theorem ofDays_aux (n : Nat) :
    n - daysBeforeYear (yearOfDays n) < daysBeforeMonth (isLeap (yearOfDays n)) 13 := by
  obtain ⟨h1, h2, h3⟩ := yearOfDays_spec n
  rw [daysBeforeYear_succ h1] at h3
  rw [daysBeforeMonth_year]
  omega

/-- The date of day `n`. -/
def ofDays (n : Nat) : Date where
  year := yearOfDays n
  month := monthOfDay (isLeap (yearOfDays n)) (n - daysBeforeYear (yearOfDays n))
  day := n - daysBeforeYear (yearOfDays n) -
    daysBeforeMonth (isLeap (yearOfDays n))
      (monthOfDay (isLeap (yearOfDays n)) (n - daysBeforeYear (yearOfDays n))) + 1
  year_pos := (yearOfDays_spec n).1
  month_pos := (monthOfDay_spec _ (ofDays_aux n)).1
  month_le := (monthOfDay_spec _ (ofDays_aux n)).2.1
  day_pos := Nat.le_add_left 1 _
  day_le := by
    obtain ⟨h1, _, h3, h4⟩ := monthOfDay_spec _ (ofDays_aux n)
    revert h1 h3 h4
    generalize monthOfDay (isLeap (yearOfDays n)) (n - daysBeforeYear (yearOfDays n)) = m
    intro h1 h3 h4
    obtain ⟨k, rfl⟩ : ∃ k, m = k + 1 := ⟨m - 1, by omega⟩
    rw [daysBeforeMonth] at h4
    omega

@[simp] theorem toDays_ofDays (n : Nat) : (ofDays n).toDays = n := by
  have h1 := (yearOfDays_spec n).2.1
  have h2 := (monthOfDay_spec _ (ofDays_aux n)).2.2.1
  simp only [toDays, ofDays]
  omega

@[simp] theorem ofDays_toDays (x : Date) : ofDays x.toDays = x := by
  obtain ⟨h1, h2⟩ := x.toDays_bounds
  have hy : yearOfDays x.toDays = x.year := yearOfDays_unique h1 h2
  have hd : x.toDays - daysBeforeYear x.year = x.dayOfYear := by
    unfold toDays dayOfYear
    omega
  have hm : monthOfDay (isLeap x.year) x.dayOfYear = x.month :=
    monthOfDay_unique _ x.month_pos x.month_le (Nat.le_add_right _ _) x.dayOfYear_lt_succ_month
  have hday := x.day_pos
  ext
  · simp only [ofDays, hy]
  · simp only [ofDays, hy, hd, hm]
  · simp only [ofDays, hy, hd, hm]
    unfold dayOfYear
    omega

theorem toDays_injective : Function.Injective toDays := fun x y h => by
  rw [← ofDays_toDays x, h, ofDays_toDays]

/-- Day counts order dates by year, then month, then day. -/
theorem toDays_lt_iff (x y : Date) :
    x.toDays < y.toDays ↔
      x.year < y.year ∨ x.year = y.year ∧
        (x.month < y.month ∨ x.month = y.month ∧ x.day < y.day) := by
  -- the forward half of each alternative; totality then gives the converse
  have mono : ∀ a b : Date, (a.year < b.year ∨ a.year = b.year ∧
      (a.month < b.month ∨ a.month = b.month ∧ a.day < b.day)) → a.toDays < b.toDays := by
    intro a b h
    rcases h with h | ⟨hy, h | ⟨hm, h⟩⟩
    · have h1 := a.toDays_bounds.2
      have h2 := b.toDays_bounds.1
      have h3 := daysBeforeYear_le (Nat.le_add_left 1 _) (show a.year + 1 ≤ b.year from h)
      omega
    · have h1 := a.dayOfYear_lt_succ_month
      have h2 := daysBeforeMonth_le (isLeap a.year) (show a.month + 1 ≤ b.month from h)
      unfold dayOfYear at h1
      unfold toDays
      rw [← hy]
      omega
    · have h1 := a.day_pos
      unfold toDays
      rw [← hy, ← hm]
      omega
  refine ⟨fun h => ?_, mono x y⟩
  rcases Nat.lt_trichotomy x.year y.year with hy | hy | hy
  · exact Or.inl hy
  · rcases Nat.lt_trichotomy x.month y.month with hm | hm | hm
    · exact Or.inr ⟨hy, Or.inl hm⟩
    · rcases Nat.lt_trichotomy x.day y.day with hd | hd | hd
      · exact Or.inr ⟨hy, Or.inr ⟨hm, hd⟩⟩
      · exact absurd h (by rw [Date.ext hy hm hd]; exact Nat.lt_irrefl _)
      · exact absurd (mono y x (Or.inr ⟨hy.symm, Or.inr ⟨hm.symm, hd⟩⟩)) (by omega)
    · exact absurd (mono y x (Or.inr ⟨hy.symm, Or.inl hm⟩)) (by omega)
  · exact absurd (mono y x (Or.inl hy)) (by omega)

/-- Weekday of a date, Monday being `0`. -/
def weekday (x : Date) : Nat := x.toDays % 7

end Date

end ArgoExporter.Lib
