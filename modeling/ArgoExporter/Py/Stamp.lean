/-
  ArgoExporter.Py.Stamp

  Canonical timestamps: UTC instants at whole seconds in the years 1000 to
  9999, the instants whose `%Y-%m-%dT%H:%M:%SZ` text has its full width.  On
  them the text determines the instant (`strptime_text`) and the order of the
  texts is the order of the instants (`text_lt_text`), which is what comparing
  stored timestamps as strings relies on.
-/

import ArgoExporter.Py.Datetime
import Mathlib.Data.String.Basic

namespace ArgoExporter.Py

open ArgoExporter.Lib

/-! ## Fields of a datetime -/

theorem Naive.year_le (n : Naive) : n.date.year ≤ 9999 := by
  by_contra h
  have h1 := daysBeforeYear_le (y := 10000) (by decide) (show 10000 ≤ n.date.year by omega)
  have h2 := n.date.toDays_bounds.1
  have h3 : n.date.toDays = n.micros / microsPerDay := Date.toDays_ofDays _
  have h4 : n.micros / microsPerDay < 3652059 := by
    rw [Nat.div_lt_iff_lt_mul (by decide)]
    exact n.inRange
  have h5 : daysBeforeYear 10000 = 3652059 := by decide
  omega

theorem Naive.timeOfDay_lt (n : Naive) : n.timeOfDay < microsPerDay := Nat.mod_lt _ (by decide)

theorem Naive.hour_lt (n : Naive) : n.hour < 24 := by
  have h := n.timeOfDay_lt
  unfold microsPerDay at h
  unfold Naive.hour
  omega

theorem Naive.minute_lt (n : Naive) : n.minute < 60 := Nat.mod_lt _ (by decide)

theorem Naive.second_lt (n : Naive) : n.second < 60 := Nat.mod_lt _ (by decide)

theorem Naive.microsecond_lt (n : Naive) : n.microsecond < microsPerSecond :=
  Nat.mod_lt _ (by decide)

theorem Naive.microsecond_eq (n : Naive) : n.microsecond = n.micros % microsPerSecond := by
  unfold Naive.microsecond Naive.timeOfDay microsPerDay microsPerSecond
  omega

theorem Naive.ofMicros?_eq_some_iff {z : Int} {n : Naive} :
    Naive.ofMicros? z = some n ↔ (n.micros : Int) = z := by
  have hrange := n.inRange
  unfold Naive.ofMicros?
  split_ifs with h
  · rw [Option.some.injEq, Naive.ext_iff]
    dsimp only
    omega
  · simp only [false_iff]
    omega

/-- The second of the day, from the clock fields. -/
theorem Naive.secondOfDay (n : Naive) :
    n.timeOfDay / microsPerSecond = (n.hour * 60 + n.minute) * 60 + n.second := by
  unfold Naive.hour Naive.minute Naive.second microsPerSecond
  omega

/-- How many digits `%Y` writes. -/
def yearWidth (y : Nat) : Nat := if y < 10 then 1 else if y < 100 then 2 else if y < 1000 then 3 else 4

theorem digit_ne_zero {d : Nat} (h : d % 10 ≠ 0) : digit d ≠ '0' := by
  intro hd
  have := congrArg Char.toNat hd
  rw [digit_toNat] at this
  have h0 : ('0' : Char).toNat = 48 := rfl
  omega

theorem dropWhile_pad {w y : Nat} (h : y / 10 ^ w % 10 ≠ 0) :
    (pad (w + 1) y).dropWhile (fun c => c = '0') = pad (w + 1) y := by
  rw [pad, List.dropWhile_cons_of_neg (by simpa using digit_ne_zero h)]

theorem dropWhile_zero_cons (l : List Char) :
    ('0' :: l).dropWhile (fun c => c = '0') = l.dropWhile fun c => c = '0' :=
  List.dropWhile_cons_of_pos (by decide)

/-- `%Y` writes the digits of the year and no padding. -/
theorem yearText_eq_pad {y : Nat} (h1 : 1 ≤ y) (h2 : y ≤ 9999) :
    yearText y = pad (yearWidth y) y := by
  unfold yearText yearWidth
  split_ifs with h10 h100 h1000
  · rw [pad_succ_of_lt (by omega), dropWhile_zero_cons, pad_succ_of_lt (by omega),
      dropWhile_zero_cons, pad_succ_of_lt (by omega), dropWhile_zero_cons,
      dropWhile_pad (by omega)]
  · rw [pad_succ_of_lt (by omega), dropWhile_zero_cons, pad_succ_of_lt (by omega),
      dropWhile_zero_cons, dropWhile_pad (by omega)]
  · rw [pad_succ_of_lt (by omega), dropWhile_zero_cons, dropWhile_pad (by omega)]
  · rw [dropWhile_pad (by omega)]

theorem yearText_of_le {y : Nat} (h1 : 1000 ≤ y) (h2 : y ≤ 9999) : yearText y = pad 4 y := by
  rw [yearText_eq_pad (by omega) h2, yearWidth, if_neg (by omega), if_neg (by omega),
    if_neg (by omega)]

/-! ## Order of clock and calendar texts -/

theorem hms_length (n : Naive) : (hms n).length = 8 := by simp [hms]

theorem monthDay_length (n : Naive) : (monthDay n).length = 6 := by simp [monthDay]

theorem pad_eq_pad {w n m : Nat} (hn : n < 10 ^ w) (hm : m < 10 ^ w) :
    pad w n = pad w m ↔ n = m :=
  ⟨pad_inj hn hm, fun h => by rw [h]⟩

theorem hms_lt_hms (a b : Naive) :
    hms a < hms b ↔ a.timeOfDay / microsPerSecond < b.timeOfDay / microsPerSecond := by
  have ha := a.minute_lt
  have ha' := a.second_lt
  have hb := b.minute_lt
  have hb' := b.second_lt
  have hah := a.hour_lt
  have hbh := b.hour_lt
  rw [a.secondOfDay, b.secondOfDay]
  simp only [hms, List.append_assoc, List.cons_append]
  rw [append_lt_append_iff (by simp), List.cons_lt_cons_self, append_lt_append_iff (by simp),
    List.cons_lt_cons_self, pad_lt_pad (by omega) (by omega), pad_lt_pad (by omega) (by omega),
    pad_lt_pad (by omega) (by omega), pad_eq_pad (by omega) (by omega),
    pad_eq_pad (by omega) (by omega)]
  omega

theorem date_fields_lt (x : Date) : x.month < 10 ^ 2 ∧ x.day < 10 ^ 2 := by
  have h1 := x.month_le
  have h2 := x.day_le
  have h3 := (daysInMonth_bounds (isLeap x.year) x.month).2
  omega

theorem dateText_lt_dateText (a b : Naive) :
    pad 4 a.date.year ++ monthDay a < pad 4 b.date.year ++ monthDay b ↔
      a.date.toDays < b.date.toDays := by
  have ha := a.year_le
  have hb := b.year_le
  obtain ⟨ham, had⟩ := date_fields_lt a.date
  obtain ⟨hbm, hbd⟩ := date_fields_lt b.date
  unfold monthDay
  rw [Date.toDays_lt_iff, append_lt_append_iff (by simp), List.cons_append, List.cons_append,
    List.cons_lt_cons_self, append_lt_append_iff (by simp), List.cons_lt_cons_self,
    pad_lt_pad (by omega) (by omega), pad_lt_pad ham hbm, pad_lt_pad had hbd,
    pad_eq_pad (by omega) (by omega), pad_eq_pad ham hbm]

theorem dateText_inj (a b : Naive)
    (h : pad 4 a.date.year ++ monthDay a = pad 4 b.date.year ++ monthDay b) :
    a.date.toDays = b.date.toDays := by
  rcases Nat.lt_trichotomy a.date.toDays b.date.toDays with hlt | heq | hgt
  · rw [← dateText_lt_dateText, h] at hlt
    exact absurd hlt (List.lt_irrefl _)
  · exact heq
  · rw [← dateText_lt_dateText, h] at hgt
    exact absurd hgt (List.lt_irrefl _)

/-! ## Reading back fixed-width fields -/

theorem cut_append {p : Char → Bool} {l : List Char} {c : Char} (r : List Char)
    (hl : ∀ x ∈ l, p x = false) (hc : p c = true) : cut p (l ++ c :: r) = some (l, r) := by
  induction l with
  | nil => simp [cut, hc]
  | cons x l ih =>
      have hx : p x = false := hl x List.mem_cons_self
      rw [List.cons_append, cut, hx, ih fun y hy => hl y (List.mem_cons_of_mem _ hy)]
      rfl

theorem digit_ne {c : Char} (hc : c.toNat < 48 ∨ 57 < c.toNat) (n : Nat) : digit n ≠ c := by
  intro h
  have := congrArg Char.toNat h
  rw [digit_toNat] at this
  omega

/-- A padded numeral ends at the first separator after it. -/
theorem cut_pad {p : Char → Bool} {c : Char} (hp : ∀ n, p (digit n) = false) (hc : p c = true)
    (w n : Nat) (r : List Char) : cut p (pad w n ++ c :: r) = some (pad w n, r) := by
  apply cut_append r _ hc
  intro x hx
  obtain ⟨d, _, rfl⟩ := digitVal?_of_mem_pad hx
  exact hp d

theorem cut_pad_eq {c : Char} (hc : c.toNat < 48 ∨ 57 < c.toNat) (w n : Nat) (r : List Char) :
    cut (fun x => x = c) (pad w n ++ c :: r) = some (pad w n, r) :=
  cut_pad (fun d => decide_eq_false (digit_ne hc d)) (decide_eq_true rfl) w n r

theorem cut_pad_or {c c' : Char} (hc : c.toNat < 48 ∨ 57 < c.toNat)
    (hc' : c'.toNat < 48 ∨ 57 < c'.toNat) (w n : Nat) (r : List Char) :
    cut (fun x => x = c ∨ x = c') (pad w n ++ c :: r) = some (pad w n, r) :=
  cut_pad (fun d => decide_eq_false (not_or.mpr ⟨digit_ne hc d, digit_ne hc' d⟩))
    (decide_eq_true (Or.inl rfl)) w n r

theorem cut_yearText (y : Nat) (r : List Char) :
    cut (fun c => c = '-') (yearText y ++ '-' :: r) = some (yearText y, r) := by
  apply cut_append
  · intro c hc
    obtain ⟨d, _, rfl⟩ := digitVal?_of_mem_pad ((List.dropWhile_suffix _).subset hc)
    exact decide_eq_false (digit_ne (by decide) d)
  · rfl

theorem yearText_inj {y y' : Nat} (h1 : 1 ≤ y) (h2 : y ≤ 9999) (h1' : 1 ≤ y') (h2' : y' ≤ 9999)
    (h : yearText y = yearText y') : y = y' := by
  rw [yearText_eq_pad h1 h2, yearText_eq_pad h1' h2'] at h
  have hwidth : yearWidth y = yearWidth y' := by
    have hlen := congrArg List.length h
    rwa [pad_length, pad_length] at hlen
  have hlt : ∀ {z : Nat}, z ≤ 9999 → z < 10 ^ yearWidth z := by
    intro z hz
    unfold yearWidth
    split_ifs <;> omega
  rw [hwidth] at h
  exact pad_inj (hwidth ▸ hlt h2) (hlt h2') h

/-- A text that starts with a date determines the date and what follows it. -/
theorem dateText_append_inj {a b : Naive} {r s : List Char}
    (h : yearText a.date.year ++ (monthDay a ++ r) = yearText b.date.year ++ (monthDay b ++ s)) :
    a.date.toDays = b.date.toDays ∧ r = s := by
  have hcut := congrArg (cut fun c => c = '-') h
  rw [monthDay, monthDay] at hcut
  simp only [List.append_assoc, List.cons_append, cut_yearText, Option.some.injEq,
    Prod.mk.injEq] at hcut
  have hyear := yearText_inj a.date.year_pos a.year_le b.date.year_pos b.year_le hcut.1
  have hrest : monthDay a ++ r = monthDay b ++ s := by
    rw [hyear] at h
    exact List.append_cancel_left h
  obtain ⟨hmonthDay, hrs⟩ := List.append_inj hrest (by rw [monthDay_length, monthDay_length])
  refine ⟨dateText_inj a b ?_, hrs⟩
  rw [hyear, hmonthDay]

theorem eq_append_of_cut {p : Char → Bool} {cs l r : List Char} (h : cut p cs = some (l, r)) :
    ∃ c, p c = true ∧ cs = l ++ c :: r := by
  induction cs generalizing l with
  | nil => exact absurd h (by simp [cut])
  | cons x cs ih =>
      rw [cut] at h
      split_ifs at h with hx
      · rw [Option.some.injEq, Prod.mk.injEq] at h
        obtain ⟨rfl, rfl⟩ := h
        exact ⟨x, hx, rfl⟩
      · obtain ⟨⟨l', r'⟩, hcut, heq⟩ := Option.map_eq_some_iff.mp h
        obtain ⟨rfl, rfl⟩ := Prod.mk.inj heq
        obtain ⟨c, hc, rfl⟩ := ih hcut
        exact ⟨c, hc, rfl⟩

/-- A text with the six separators ends in the last of them. -/
theorem ends_in_zulu_of_stampFields {cs : List Char}
    {f : List Char × List Char × List Char × List Char × List Char × List Char}
    (h : stampFields cs = some f) : ∃ l c, (c = 'Z' ∨ c = 'z') ∧ cs = l ++ [c] := by
  unfold stampFields at h
  simp only [Option.bind_eq_bind, Option.bind_eq_some_iff, Prod.exists] at h
  obtain ⟨year, r1, h1, month, r2, h2, day, r3, h3, hour, r4, h4, minute, r5, h5, second, r6, h6,
    h⟩ := h
  split_ifs at h with hend
  rw [List.isEmpty_iff] at hend
  subst hend
  obtain ⟨c1, _, rfl⟩ := eq_append_of_cut h1
  obtain ⟨c2, _, rfl⟩ := eq_append_of_cut h2
  obtain ⟨c3, _, rfl⟩ := eq_append_of_cut h3
  obtain ⟨c4, _, rfl⟩ := eq_append_of_cut h4
  obtain ⟨c5, _, rfl⟩ := eq_append_of_cut h5
  obtain ⟨c, hc, rfl⟩ := eq_append_of_cut h6
  refine ⟨year ++ c1 :: (month ++ c2 :: (day ++ c3 :: (hour ++ c4 :: (minute ++ c5 :: second)))),
    c, of_decide_eq_true hc, ?_⟩
  simp only [List.append_assoc, List.cons_append]

/-- Cutting at the six separators in turn gives the six fields. -/
theorem stampFields_of_cuts {cs y r1 m r2 d r3 h r4 mi r5 s : List Char}
    (h1 : cut (fun c => c = '-') cs = some (y, r1))
    (h2 : cut (fun c => c = '-') r1 = some (m, r2))
    (h3 : cut (fun c => c = 'T' ∨ c = 't') r2 = some (d, r3))
    (h4 : cut (fun c => c = ':') r3 = some (h, r4))
    (h5 : cut (fun c => c = ':') r4 = some (mi, r5))
    (h6 : cut (fun c => c = 'Z' ∨ c = 'z') r5 = some (s, [])) :
    stampFields cs = some (y, m, d, h, mi, s) := by
  simp only [stampFields, h1, h2, h3, h4, h5, h6, Option.bind_eq_bind, Option.bind_some,
    List.isEmpty_nil, if_true]

theorem strptime_of_fields {text : String} {y m d h mi s : List Char} {y' m' d' h' mi' s' : Nat}
    (hf : stampFields text.toList = some (y, m, d, h, mi, s)) (hy : yearField y = some y')
    (hm : monthField m = some m') (hd : dayField d = some d') (hh : hourField h = some h')
    (hmi : minuteField mi = some mi') (hs : secondField s = some s') :
    strptime text = Naive.ofFields? y' m' d' h' mi' s' 0 := by
  simp only [strptime, hf, hy, hm, hd, hh, hmi, hs, Option.bind_eq_bind, Option.bind_some]

theorem yearField_pad {y : Nat} (hy : y ≤ 9999) : yearField (pad 4 y) = some y := by
  simp only [pad, yearField, decimal?_digit, Option.bind_eq_bind, Option.bind_some,
    Option.pure_def, Option.some.injEq]
  omega

theorem pad_two (n : Nat) : pad 2 n = [digit (n / 10), digit n] := by
  simp [pad]

theorem monthField_pad {m : Nat} (h1 : 1 ≤ m) (h2 : m ≤ 12) : monthField (pad 2 m) = some m := by
  simp only [pad_two, monthField, digitVal?_digit, Option.bind_eq_bind, Option.bind_some]
  rw [if_pos (by omega), Option.some.injEq]
  omega

theorem dayField_pad {d : Nat} (h1 : 1 ≤ d) (h2 : d ≤ 31) : dayField (pad 2 d) = some d := by
  have hspace : digit (d / 10) ≠ ' ' := digit_ne (by decide) _
  simp only [pad_two, dayField, if_neg hspace, digitVal?_digit, decimal?_digit,
    Option.bind_eq_bind, Option.bind_some, Option.map_some]
  split
  · rw [Option.some.injEq]
    omega
  · rw [if_pos (by omega), Option.some.injEq]
    omega

theorem hourField_pad {h : Nat} (hh : h < 24) : hourField (pad 2 h) = some h := by
  simp only [pad_two, hourField, digitVal?_digit, decimal?_digit, Option.bind_eq_bind,
    Option.bind_some, Option.map_some]
  split
  · rw [Option.some.injEq]
    omega
  · rw [if_pos (by omega), Option.some.injEq]
    omega

theorem minuteField_pad {m : Nat} (hm : m < 60) : minuteField (pad 2 m) = some m := by
  simp only [pad_two, minuteField, digitVal?_digit, decimal?_digit, Option.bind_eq_bind,
    Option.bind_some, Option.map_some]
  rw [if_pos (by omega), Option.some.injEq]
  omega

theorem secondField_pad {s : Nat} (hs : s < 60) : secondField (pad 2 s) = some s := by
  simp only [pad_two, secondField, digitVal?_digit, decimal?_digit, Option.bind_eq_bind,
    Option.bind_some, Option.map_some]
  rw [if_pos (by omega), Option.some.injEq]
  omega

/-- A two-digit field that is read has the value of its digits. -/
theorem field_pad_eq {field : List Char → Option Nat}
    (hfield : field ∈ [monthField, dayField, hourField, minuteField, secondField]) {v k : Nat}
    (hv : v < 100) (h : field (pad 2 v) = some k) : k = v := by
  have hspace : digit (v / 10) ≠ ' ' := digit_ne (by decide) _
  simp only [List.mem_cons, List.not_mem_nil, or_false] at hfield
  rw [pad_two] at h
  rcases hfield with rfl | rfl | rfl | rfl | rfl <;>
    simp only [monthField, dayField, hourField, minuteField, secondField, if_neg hspace,
      digitVal?_digit, decimal?_digit, Option.bind_eq_bind, Option.bind_some,
      Option.map_some] at h
  all_goals
    split_ifs at h
    all_goals
      rw [Option.some.injEq] at h
      omega

/-- The constructor undoes the field accessors. -/
theorem ofFields?_self (n : Naive) :
    Naive.ofFields? n.date.year n.date.month n.date.day n.hour n.minute n.second n.microsecond =
      some n := by
  have hsec := n.secondOfDay
  have htod : n.timeOfDay / microsPerSecond * microsPerSecond + n.microsecond = n.timeOfDay :=
    Nat.div_add_mod' n.timeOfDay microsPerSecond
  have hdays : n.date.toDays = n.micros / microsPerDay := Date.toDays_ofDays _
  have hmicros : n.date.toDays * microsPerDay +
      (((n.hour * 60 + n.minute) * 60 + n.second) * microsPerSecond + n.microsecond) =
        n.micros := by
    rw [← hsec, htod, hdays]
    exact Nat.div_add_mod' n.micros microsPerDay
  have hrange := n.inRange
  simp only [Naive.ofFields?, Date.mk?_fields, Option.bind_eq_bind, Option.bind_some]
  rw [if_pos ⟨n.hour_lt, n.minute_lt, n.second_lt, n.microsecond_lt⟩, hmicros, Naive.ofMicros?,
    dif_pos (by omega)]
  simp only [Int.toNat_natCast]

/-- The arguments of the constructor are the fields of the datetime it builds. -/
theorem fields_of_ofFields? {year month day hour minute second microsecond : Nat} {n : Naive}
    (hn : Naive.ofFields? year month day hour minute second microsecond = some n) :
    (n.date.year = year ∧ n.date.month = month ∧ n.date.day = day) ∧
      n.hour = hour ∧ n.minute = minute ∧ n.second = second ∧ n.microsecond = microsecond := by
  unfold Naive.ofFields? at hn
  simp only [Option.bind_eq_bind, Option.bind_eq_some_iff] at hn
  obtain ⟨date, hdate, hn⟩ := hn
  split_ifs at hn with hclock
  have hmicros : n.micros = date.toDays * microsPerDay +
      (((hour * 60 + minute) * 60 + second) * microsPerSecond + microsecond) := by
    exact_mod_cast Naive.ofMicros?_eq_some_iff.mp hn
  have htime : ((hour * 60 + minute) * 60 + second) * microsPerSecond + microsecond <
      microsPerDay := by
    unfold microsPerSecond microsPerDay at *
    omega
  -- the clock is less than a day, so the day count is the quotient
  have hdays : n.micros / microsPerDay = date.toDays := by
    rw [hmicros, Nat.add_comm, Nat.add_mul_div_right _ _ (by decide), Nat.div_eq_of_lt htime,
      Nat.zero_add]
  have htod : n.timeOfDay =
      ((hour * 60 + minute) * 60 + second) * microsPerSecond + microsecond := by
    rw [Naive.timeOfDay, hmicros, Nat.add_comm, Nat.add_mul_mod_self_right, Nat.mod_eq_of_lt htime]
  constructor
  · rw [Naive.date, hdays, Date.ofDays_toDays]
    exact Date.fields_of_mk? hdate
  · unfold Naive.hour Naive.minute Naive.second Naive.microsecond
    rw [htod]
    unfold microsPerSecond at *
    omega

/-! ## Reading a written datetime -/

/-- The texts between the separators of a datetime written with a full-width year, with `tail`
    after its seconds. -/
theorem stampFields_padded (n : Naive) {tail : List Char}
    (htail : ∀ c ∈ tail, c ≠ 'Z' ∧ c ≠ 'z') :
    stampFields (pad 4 n.date.year ++ monthDay n ++ ('T' :: hms n ++ tail ++ ['Z'])) =
      some (pad 4 n.date.year, pad 2 n.date.month, pad 2 n.date.day, pad 2 n.hour, pad 2 n.minute,
        pad 2 n.second ++ tail) := by
  have hdash : '-'.toNat < 48 ∨ 57 < '-'.toNat := by decide
  have hcolon : ':'.toNat < 48 ∨ 57 < ':'.toNat := by decide
  -- the last field runs to the first `Z`, and the tail has none
  have hseconds : cut (fun c => c = 'Z' ∨ c = 'z') (pad 2 n.second ++ tail ++ 'Z' :: []) =
      some (pad 2 n.second ++ tail, []) := by
    apply cut_append
    · intro c hc
      rcases List.mem_append.mp hc with hc | hc
      · obtain ⟨d, _, rfl⟩ := digitVal?_of_mem_pad hc
        exact decide_eq_false (not_or.mpr
          ⟨digit_ne (by decide) d, digit_ne (by decide) d⟩)
      · exact decide_eq_false (not_or.mpr (htail c hc))
    · rfl
  rw [monthDay, hms]
  rw [List.append_assoc] at hseconds
  simp only [List.append_assoc, List.cons_append]
  exact stampFields_of_cuts (cut_pad_eq hdash _ _ _) (cut_pad_eq hdash _ _ _)
    (cut_pad_or (by decide) (by decide) _ _ _) (cut_pad_eq hcolon _ _ _)
    (cut_pad_eq hcolon _ _ _) hseconds

/-- A whole second written with a full-width year is read back. -/
theorem strptime_padded {n : Naive} {text : String}
    (htext : text.toList = pad 4 n.date.year ++ monthDay n ++ ('T' :: hms n ++ [] ++ ['Z']))
    (hmicros : n.micros % microsPerSecond = 0) : strptime text = some n := by
  have hday := Nat.le_trans n.date.day_le
    (daysInMonth_bounds (isLeap n.date.year) n.date.month).2
  have hnil : ∀ c ∈ ([] : List Char), c ≠ 'Z' ∧ c ≠ 'z' := by simp
  have hfields := stampFields_padded n hnil
  rw [← htext, List.append_nil] at hfields
  rw [strptime_of_fields hfields (yearField_pad n.year_le)
    (monthField_pad n.date.month_pos n.date.month_le)
    (dayField_pad n.date.day_pos hday) (hourField_pad n.hour_lt)
    (minuteField_pad n.minute_lt) (secondField_pad n.second_lt), ← hmicros, ← n.microsecond_eq]
  exact ofFields?_self n

/-- With anything between its seconds and the `Z` a datetime is not read. -/
theorem strptime_tail {n : Naive} {text : String} {tail : List Char} (hne : tail ≠ [])
    (htail : ∀ c ∈ tail, c ≠ 'Z' ∧ c ≠ 'z')
    (htext : text.toList = pad 4 n.date.year ++ monthDay n ++ ('T' :: hms n ++ tail ++ ['Z'])) :
    strptime text = none := by
  have hfields := stampFields_padded n htail
  rw [← htext] at hfields
  have hsecond : secondField (pad 2 n.second ++ tail) = none := by
    cases tail with
    | nil => exact absurd rfl hne
    | cons c tail => rfl
  simp only [strptime, hfields, hsecond, Option.bind_eq_bind, Option.bind_some, Option.bind_none,
    Option.bind_fun_none]

/-! ## Canonical timestamps -/

/-- Seconds from 0001-01-01 to the start of year 1000 and to the end of year 9999. -/
def stampMin : Nat := 31525372800
def stampMax : Nat := 315537897600

/-- A whole second of the years 1000 to 9999, in UTC. -/
@[ext]
structure Stamp where
  secs : Nat
  lower : stampMin ≤ secs
  upper : secs < stampMax
  deriving DecidableEq

namespace Stamp

/-- The instant as a datetime. -/
def naive (t : Stamp) : Naive :=
  ⟨t.secs * microsPerSecond, by
    have := t.upper
    unfold stampMax at this
    unfold maxMicros microsPerDay microsPerSecond
    omega⟩

/-- The canonical text of the instant. -/
def text (t : Stamp) : String := strftime t.naive

theorem micros_div_day (t : Stamp) : t.naive.micros / microsPerDay = t.secs / secondsPerDay := by
  unfold naive microsPerDay microsPerSecond secondsPerDay
  dsimp only
  omega

theorem secondOfDay (t : Stamp) :
    t.naive.timeOfDay / microsPerSecond = t.secs % secondsPerDay := by
  unfold Naive.timeOfDay naive microsPerDay microsPerSecond secondsPerDay
  dsimp only
  omega

theorem date_toDays (t : Stamp) : t.naive.date.toDays = t.secs / secondsPerDay := by
  rw [Naive.date, Date.toDays_ofDays, micros_div_day]

theorem year_ge (t : Stamp) : 1000 ≤ t.naive.date.year := by
  by_contra h
  have h1 := t.naive.date.toDays_bounds.2
  have h2 := daysBeforeYear_le (Nat.le_add_left 1 _)
    (show t.naive.date.year + 1 ≤ 1000 by omega)
  have h3 : daysBeforeYear 1000 = 364877 := by decide
  have h4 := t.lower
  rw [date_toDays] at h1
  unfold stampMin at h4
  unfold secondsPerDay at h1
  omega

theorem toList_text (t : Stamp) :
    t.text.toList = pad 4 t.naive.date.year ++ monthDay t.naive ++ ('T' :: hms t.naive ++ ['Z']) := by
  rw [text, strftime, String.toList_ofList, yearText_of_le t.year_ge t.naive.year_le]
  simp only [List.append_assoc, List.cons_append]

/-- Canonical texts are ordered as their instants. -/
theorem text_lt_text (s t : Stamp) : s.text < t.text ↔ s.secs < t.secs := by
  have hlen : (pad 4 s.naive.date.year ++ monthDay s.naive).length =
      (pad 4 t.naive.date.year ++ monthDay t.naive).length := by
    simp [monthDay_length]
  have heq : pad 4 s.naive.date.year ++ monthDay s.naive =
      pad 4 t.naive.date.year ++ monthDay t.naive ↔ s.naive.date.toDays = t.naive.date.toDays :=
    ⟨dateText_inj _ _, fun h => by rw [monthDay, monthDay, Date.toDays_injective h]⟩
  have hclock : hms s.naive ++ ['Z'] < hms t.naive ++ ['Z'] ↔ hms s.naive < hms t.naive := by
    rw [append_lt_append_iff (by rw [hms_length, hms_length])]
    simp
  rw [String.lt_iff_toList_lt, toList_text, toList_text, append_lt_append_iff hlen,
    dateText_lt_dateText, heq, List.cons_append, List.cons_append, List.cons_lt_cons_self, hclock,
    hms_lt_hms, date_toDays, date_toDays, secondOfDay, secondOfDay]
  exact (lt_iff_div_mod_lt s.secs t.secs secondsPerDay).symm

theorem text_le_text (s t : Stamp) : s.text ≤ t.text ↔ s.secs ≤ t.secs := by
  rw [← not_lt, text_lt_text, not_lt]

/-- Parsing the canonical text gives the instant back. -/
theorem strptime_text (t : Stamp) : strptime t.text = some t.naive := by
  have hmicros : t.naive.micros % microsPerSecond = 0 := Nat.mul_mod_left _ _
  refine strptime_padded ?_ hmicros
  rw [toList_text, List.append_nil]

/-! ## Texts of early years -/

/-- A shorter year followed by a hyphen, against a year with its full width. -/
theorem pad_dash_lt_pad {w v y Y : Nat} (hy : y < 10 ^ w) (hY : Y < 10 ^ (w + (v + 1)))
    (r s : List Char) :
    pad (w + (v + 1)) Y ++ s < pad w y ++ '-' :: r ↔ Y / 10 ^ (v + 1) < y := by
  have hlead : Y / 10 ^ (v + 1) < 10 ^ w := by
    rw [Nat.div_lt_iff_lt_mul (Nat.pow_pos (by decide)), ← pow_add]
    exact hY
  have hdigit : ¬ digit (Y / 10 ^ v) < '-' := by
    have hcode : ('-' : Char).toNat = 45 := rfl
    rw [show digit (Y / 10 ^ v) < '-' ↔ (digit (Y / 10 ^ v)).toNat < ('-' : Char).toNat from
      Iff.rfl, digit_toNat, hcode]
    omega
  have hne : digit (Y / 10 ^ v) ≠ '-' := digit_ne (by decide) _
  -- the hyphen is below every digit, so equal leading digits put the full-width year above
  rw [pad_add, List.append_assoc, append_lt_append_iff (by simp), pad_lt_pad hlead hy, pad,
    List.cons_append, List.cons_lt_cons_iff]
  simp only [hdigit, hne, false_and, or_false, and_false]

/-- The text of an instant before year 1000 compares with a canonical one by leading digits. -/
theorem strftime_le_text {b : Naive} (h : b.date.year < 1000) (s : Stamp) :
    strftime b ≤ s.text ↔
      b.date.year ≤ s.naive.date.year / 10 ^ (4 - yearWidth b.date.year) := by
  have hpos := b.date.year_pos
  have hY := s.naive.year_le
  -- a year below 1000 has at most three digits
  have hsplit : ∃ v, yearWidth b.date.year + (v + 1) = 4 ∧
      b.date.year < 10 ^ yearWidth b.date.year := by
    unfold yearWidth
    split_ifs
    · exact ⟨2, rfl, by omega⟩
    · exact ⟨1, rfl, by omega⟩
    · exact ⟨0, rfl, by omega⟩
  obtain ⟨v, hv, hlt⟩ := hsplit
  have hv' : 4 - yearWidth b.date.year = v + 1 := by omega
  rw [← not_lt, ← not_lt, not_iff_not, String.lt_iff_toList_lt, toList_text, strftime,
    String.toList_ofList, yearText_eq_pad hpos b.year_le, hv', monthDay, monthDay,
    List.append_assoc, List.cons_append, List.cons_append, List.cons_append,
    show pad 4 s.naive.date.year = pad (yearWidth b.date.year + (v + 1)) s.naive.date.year by
      rw [hv]]
  refine pad_dash_lt_pad hlt ?_ _ _
  rw [hv]
  omega

end Stamp

end ArgoExporter.Py
