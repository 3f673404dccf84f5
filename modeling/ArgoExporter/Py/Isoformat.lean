/-
  ArgoExporter.Py.Isoformat

  Normalized timestamps: what `isoformat` writes of a UTC datetime, with its
  `+00:00` as a `Z`.  There are two widths of them, one with a fraction of a
  second and one without.  Both are read back to the datetime they were written
  from (`fromisoformat_replaceZulu`).  Their order is that of the seconds, and
  within one second a fraction comes before the whole second
  (`isoformatZ_lt_iff`).
-/

import ArgoExporter.Py.Stamp

namespace ArgoExporter.Py

open ArgoExporter.Lib

/-! ## The text -/

/-- The fraction of a second, left out when there is none. -/
def fractionText (n : Naive) : List Char :=
  if n.microsecond = 0 then [] else '.' :: pad 6 n.microsecond

/-- The clock with its fraction, field by field. -/
def clockText (n : Naive) : List Char :=
  pad 2 n.hour ++ ':' :: (pad 2 n.minute ++ ':' :: (pad 2 n.second ++ fractionText n))

/-- The text up to the offset, field by field. -/
def isoText (n : Naive) : List Char :=
  pad 4 n.date.year ++ '-' :: (pad 2 n.date.month ++ '-' :: (pad 2 n.date.day ++
    'T' :: clockText n))

theorem toList_isoformatZ (n : Naive) : (isoformatZ n).toList = isoText n ++ ['Z'] := by
  rw [isoformatZ, String.toList_ofList, isoText, clockText, monthDay, hms, fractionText]
  simp only [List.append_assoc, List.cons_append]

theorem mem_clockText {n : Naive} {c : Char} (h : c ∈ clockText n) :
    (∃ d, c = digit d) ∨ c = ':' ∨ c = '.' := by
  have hpad {w v : Nat} (hc : c ∈ pad w v) : ∃ d, c = digit d := by
    obtain ⟨d, _, hd⟩ := digitVal?_of_mem_pad hc
    exact ⟨d, hd⟩
  have hfraction : c ∈ fractionText n → (∃ d, c = digit d) ∨ c = '.' := by
    unfold fractionText
    split_ifs
    · exact fun hc => absurd hc List.not_mem_nil
    · intro hc
      rcases List.mem_cons.mp hc with rfl | hc
      · exact Or.inr rfl
      · exact Or.inl (hpad hc)
  simp only [clockText, List.mem_append, List.mem_cons] at h
  rcases h with h | h | h | h | h | h
  · exact Or.inl (hpad h)
  · exact Or.inr (Or.inl h)
  · exact Or.inl (hpad h)
  · exact Or.inr (Or.inl h)
  · exact Or.inl (hpad h)
  · exact (hfraction h).imp_right Or.inr

/-- The characters of a normalized timestamp before its `Z`. -/
theorem mem_isoText {n : Naive} {c : Char} (h : c ∈ isoText n) :
    (∃ d, c = digit d) ∨ c ∈ ['-', 'T', ':', '.'] := by
  have hpad {w v : Nat} (hc : c ∈ pad w v) : ∃ d, c = digit d := by
    obtain ⟨d, _, hd⟩ := digitVal?_of_mem_pad hc
    exact ⟨d, hd⟩
  simp only [isoText, List.mem_append, List.mem_cons] at h
  rcases h with h | rfl | h | rfl | h | rfl | h
  · exact Or.inl (hpad h)
  · exact Or.inr (by decide)
  · exact Or.inl (hpad h)
  · exact Or.inr (by decide)
  · exact Or.inl (hpad h)
  · exact Or.inr (by decide)
  · rcases mem_clockText h with h | rfl | rfl
    · exact Or.inl h
    · exact Or.inr (by decide)
    · exact Or.inr (by decide)

theorem ne_zulu_of_mem_isoText {n : Naive} {c : Char} (h : c ∈ isoText n) : c ≠ 'Z' := by
  rcases mem_isoText h with ⟨d, rfl⟩ | h
  · exact digit_ne (by decide) d
  · rintro rfl
    exact absurd h (by decide)

theorem utf8Size_of_mem_isoText {n : Naive} {c : Char} (h : c ∈ isoText n) : c.utf8Size = 1 := by
  rw [Char.utf8Size_eq_one_iff]
  rcases mem_isoText h with ⟨d, rfl⟩ | h
  · have hcode := digit_toNat d
    have hmod : d % 10 < 10 := Nat.mod_lt _ (by decide)
    rw [UInt32.le_iff_toNat_le]
    show (digit d).toNat ≤ 127
    omega
  · simp only [List.mem_cons, List.not_mem_nil, or_false] at h
    rcases h with rfl | rfl | rfl | rfl <;> decide

theorem flatMap_eq_self {α : Type*} {f : α → List α} {l : List α} (h : ∀ a ∈ l, f a = [a]) :
    l.flatMap f = l := by
  induction l with
  | nil => rfl
  | cons a l ih =>
      rw [List.flatMap_cons, h a List.mem_cons_self, ih fun b hb => h b (List.mem_cons_of_mem _ hb)]
      rfl

/-- The one `Z` is at the end. -/
theorem toList_replaceZulu (n : Naive) :
    (replaceZulu (isoformatZ n)).toList = isoText n ++ "+00:00".toList := by
  rw [replaceZulu, String.toList_ofList, toList_isoformatZ, List.flatMap_append,
    flatMap_eq_self fun c hc => if_neg (ne_zulu_of_mem_isoText hc)]
  rfl

/-! ## Reading it back -/

theorem parseDigits_pad {w v : Nat} (h : v < 10 ^ w) (r : List Char) :
    parseDigits w (pad w v ++ r) = some (v, r) := by
  have hlen : ¬ (pad w v ++ r).length < w := by simp
  rw [parseDigits, if_neg hlen, List.take_left' (pad_length w v), List.drop_left' (pad_length w v),
    ofDigits?_pad h]
  rfl

theorem peek_cons (c : Char) (r : List Char) : peek (c :: r) = c := rfl

/-- The date of a text that starts with one, however it goes on. -/
theorem parseIsoformatDate_padded (n : Naive) (r : List Char) :
    parseIsoformatDate (pad 4 n.date.year ++ '-' :: (pad 2 n.date.month ++
      '-' :: (pad 2 n.date.day ++ r))) 10 = some (n.date.year, n.date.month, n.date.day) := by
  have hyear := n.year_le
  obtain ⟨hmonth, hday⟩ := date_fields_lt n.date
  have hweek : peek (pad 2 n.date.month ++ '-' :: (pad 2 n.date.day ++ r)) ≠ 'W' := by
    rw [pad_two, List.cons_append, peek_cons]
    exact digit_ne (by decide) _
  have hlen : (pad 4 n.date.year ++ '-' :: (pad 2 n.date.month ++
      '-' :: (pad 2 n.date.day ++ r))).length - r.length = 10 := by
    simp only [List.length_append, List.length_cons, pad_length]
    omega
  unfold parseIsoformatDate
  dsimp only
  rw [parseDigits_pad (by omega)]
  simp only [Option.bind_eq_bind, Option.bind_some, peek_cons, if_true,
    List.drop_succ_cons, List.drop_zero]
  rw [if_neg hweek, parseDigits_pad hmonth]
  simp only [Option.bind_some, peek_cons, ne_eq, not_true_eq_false, and_false, if_false,
    List.drop_succ_cons, List.drop_zero]
  rw [parseDigits_pad hday, Option.bind_some, if_pos hlen]

theorem findIsoformatSeparator_padded (y m : Nat) (r : List Char) :
    findIsoformatSeparator (pad 4 y ++ '-' :: (pad 2 m ++ '-' :: r)) = some 10 := by
  have hlen : ¬ (pad 4 y ++ '-' :: (pad 2 m ++ '-' :: r)).length = 7 := by
    simp only [List.length_append, List.length_cons, pad_length]
    omega
  have hsep : (pad 4 y ++ '-' :: (pad 2 m ++ '-' :: r)).drop 4 = '-' :: (pad 2 m ++ '-' :: r) :=
    List.drop_left' (pad_length 4 y)
  have hmonth : (pad 4 y ++ '-' :: (pad 2 m ++ '-' :: r)).drop 5 = pad 2 m ++ '-' :: r := by
    rw [← List.drop_drop (i := 1) (j := 4), hsep]
    rfl
  have hweek : peek (pad 2 m ++ '-' :: r) ≠ 'W' := by
    rw [pad_two, List.cons_append, peek_cons]
    exact digit_ne (by decide) _
  unfold findIsoformatSeparator
  dsimp only
  rw [if_neg hlen, hsep, hmonth, peek_cons, if_pos rfl, if_neg hweek]

/-- A two-digit field with a colon after it, where the clock goes on. -/
theorem parseClockFields_colon (f : ClockFields) {v : Nat} (hv : v < 10 ^ 2) {r : List Char}
    {tail : Nat} (hr : tail < r.length) (put : ClockFields → Nat → ClockFields)
    (puts : List (ClockFields → Nat → ClockFields)) :
    parseClockFields true f (pad 2 v ++ ':' :: r) tail (put :: puts) =
      parseClockFields true (put f v) r tail puts := by
  have hgoes : ¬ ((':' :: r).length ≤ tail ∨ ((':' :: r).drop 1).length ≤ tail) := by
    simp only [List.length_cons, List.drop_succ_cons, List.drop_zero]
    omega
  rw [parseClockFields, parseDigits_pad hv]
  simp only [Option.bind_eq_bind, Option.bind_some]
  rw [if_neg hgoes, if_pos ⟨trivial, peek_cons ':' r⟩]
  rfl

/-- The seconds and the fraction after them, if there is one. -/
theorem parseClockFields_second (n : Naive) (f : ClockFields) (hf : f.microsecond = 0)
    {zone : List Char} (hzone : zone.headD '\x00' = '+') :
    ∃ junk, parseClockFields true f (pad 2 n.second ++ (fractionText n ++ zone)) zone.length
        [fun f v => { f with second := v }] =
      some ({ f with second := n.second, microsecond := n.microsecond }, junk) := by
  have hsecond := n.second_lt
  rw [parseClockFields, parseDigits_pad (by omega)]
  simp only [Option.bind_eq_bind, Option.bind_some]
  by_cases hwhole : n.microsecond = 0
  · have hends : fractionText n ++ zone = zone := by rw [fractionText, if_pos hwhole, List.nil_append]
    rw [hends, if_pos (Or.inl (Nat.le_refl _)), hwhole, ← hf]
    exact ⟨_, rfl⟩
  · have hnext : fractionText n ++ zone = '.' :: (pad 6 n.microsecond ++ zone) := by
      rw [fractionText, if_neg hwhole, List.cons_append]
    have hgoes : ¬ (('.' :: (pad 6 n.microsecond ++ zone)).length ≤ zone.length ∨
        (('.' :: (pad 6 n.microsecond ++ zone)).drop 1).length ≤ zone.length) := by
      simp only [List.length_cons, List.drop_succ_cons, List.drop_zero, List.length_append,
        pad_length]
      omega
    have hmicro : n.microsecond < 10 ^ 6 := n.microsecond_lt
    have hsix : min ((pad 6 n.microsecond ++ zone).length - zone.length) 6 = 6 := by
      simp
    have hstops : zone.dropWhile (fun c => (digitVal? c).isSome) = zone := by
      cases zone with
      | nil => rfl
      | cons c zone =>
          obtain rfl : c = '+' := hzone
          rfl
    rw [hnext, if_neg hgoes, if_neg (by simp [peek_cons]), if_pos (Or.inl (peek_cons _ _))]
    simp only [List.drop_succ_cons, List.drop_zero, parseFraction, hsix,
      parseDigits_pad hmicro, Option.bind_eq_bind, Option.bind_some, hstops,
      Nat.sub_self, pow_zero, mul_one, Option.pure_def]
    exact ⟨_, rfl⟩

/-- The clock of a text, with the offset that follows it. -/
theorem parseHhMmSsFf_clockText (n : Naive) {zone : List Char} (hzone : zone.headD '\x00' = '+') :
    ∃ junk, parseHhMmSsFf (clockText n ++ zone) zone.length =
      some (⟨n.hour, n.minute, n.second, n.microsecond⟩, junk) := by
  have hhour := n.hour_lt
  have hminute := n.minute_lt
  have htext : clockText n ++ zone = pad 2 n.hour ++ ':' :: (pad 2 n.minute ++
      ':' :: (pad 2 n.second ++ (fractionText n ++ zone))) := by
    rw [clockText]
    simp only [List.append_assoc, List.cons_append]
  have hsep : (pad 2 n.hour ++ ':' :: (pad 2 n.minute ++ ':' :: (pad 2 n.second ++
      (fractionText n ++ zone)))).drop 2 = ':' :: (pad 2 n.minute ++ ':' :: (pad 2 n.second ++
        (fractionText n ++ zone))) := List.drop_left' (pad_length 2 n.hour)
  unfold parseHhMmSsFf
  rw [htext, hsep, peek_cons, decide_eq_true (rfl : (':' : Char) = ':'),
    parseClockFields_colon _ (by omega), parseClockFields_colon _ (by omega)]
  · exact parseClockFields_second n _ rfl hzone
  · simp only [List.length_append, pad_length]
    omega
  · simp only [List.length_append, List.length_cons, pad_length]
    omega

theorem parseIsoformatTime_clockText (n : Naive) :
    parseIsoformatTime (clockText n ++ "+00:00".toList) =
      some (⟨n.hour, n.minute, n.second, n.microsecond⟩, some 0) := by
  have hclock : ∀ c ∈ clockText n, decide (¬ (c = '+' ∨ c = '-' ∨ c = 'Z')) = true := by
    intro c hc
    apply decide_eq_true
    rcases mem_clockText hc with ⟨d, rfl⟩ | rfl | rfl
    · exact not_or.mpr ⟨digit_ne (by decide) d,
        not_or.mpr ⟨digit_ne (by decide) d, digit_ne (by decide) d⟩⟩
    · decide
    · decide
  obtain ⟨junk, hparse⟩ := parseHhMmSsFf_clockText n (show "+00:00".toList.headD '\x00' = '+' from rfl)
  have hoffset : parseHhMmSsFf "00:00".toList 0 = some ({}, false) := by decide
  unfold parseIsoformatTime
  dsimp only
  rw [List.dropWhile_append_of_pos hclock]
  show ((parseHhMmSsFf (clockText n ++ "+00:00".toList) "+00:00".toList.length).bind _) = _
  rw [hparse, Option.bind_some]
  show ((parseHhMmSsFf "00:00".toList 0).bind _) = _
  rw [hoffset]
  rfl

/-- A normalized timestamp is read back. -/
theorem fromisoformat_replaceZulu (n : Naive) :
    fromisoformat (replaceZulu (isoformatZ n)) = some ⟨n, some 0⟩ := by
  have hascii : ∀ c ∈ isoText n ++ "+00:00".toList, List.replicate c.utf8Size c = [c] := by
    intro c hc
    rcases List.mem_append.mp hc with hc | hc
    · rw [utf8Size_of_mem_isoText hc]
      rfl
    · have hzone : c ∈ ['+', '0', '0', ':', '0', '0'] := hc
      simp only [List.mem_cons, List.not_mem_nil, or_false] at hzone
      rcases hzone with rfl | rfl | rfl | rfl | rfl | rfl <;> rfl
  have hlen : ¬ (isoText n ++ "+00:00".toList).length < 7 := by
    simp only [isoText, List.length_append, List.length_cons, pad_length]
    omega
  have hlen' : ¬ (isoText n ++ "+00:00".toList).length ≤ 10 := by
    simp only [isoText, clockText, List.length_append, List.length_cons, pad_length]
    omega
  have htext : isoText n ++ "+00:00".toList = pad 4 n.date.year ++ '-' :: (pad 2 n.date.month ++
      '-' :: (pad 2 n.date.day ++ 'T' :: (clockText n ++ "+00:00".toList))) := by
    rw [isoText]
    simp only [List.append_assoc, List.cons_append]
  have hdrop : (isoText n ++ "+00:00".toList).drop 10 = 'T' :: (clockText n ++ "+00:00".toList) := by
    have hdate : (pad 4 n.date.year ++ '-' :: (pad 2 n.date.month ++
        '-' :: pad 2 n.date.day)).length = 10 := by
      simp only [List.length_append, List.length_cons, pad_length]
    have hdrop : (pad 4 n.date.year ++ '-' :: (pad 2 n.date.month ++ '-' :: pad 2 n.date.day) ++
        'T' :: (clockText n ++ "+00:00".toList)).drop 10 =
          'T' :: (clockText n ++ "+00:00".toList) := List.drop_left' hdate
    rw [htext]
    simpa only [List.append_assoc, List.cons_append] using hdrop
  have hfind : findIsoformatSeparator (isoText n ++ "+00:00".toList) = some 10 := by
    rw [htext]
    exact findIsoformatSeparator_padded _ _ _
  have hdate : parseIsoformatDate (isoText n ++ "+00:00".toList) 10 =
      some (n.date.year, n.date.month, n.date.day) := by
    rw [htext]
    exact parseIsoformatDate_padded n _
  have hskip : ('T' :: (clockText n ++ "+00:00".toList)).drop
      (peek ('T' :: (clockText n ++ "+00:00".toList))).utf8Size =
        clockText n ++ "+00:00".toList := rfl
  unfold fromisoformat
  rw [toList_replaceZulu, flatMap_eq_self hascii]
  dsimp only
  rw [if_neg hlen]
  simp only [hfind, hdate, Option.bind_eq_bind, Option.bind_some]
  rw [if_neg hlen', hdrop, hskip, parseIsoformatTime_clockText, Option.bind_some]
  dsimp only
  rw [ofFields?_self]
  rfl

/-! ## Reading with `strptime` -/

/-- A whole second is read back. -/
theorem strptime_isoformatZ_whole {utc : Naive} (h : utc.microsecond = 0) :
    strptime (isoformatZ utc) = some utc := by
  refine strptime_padded ?_ (by rwa [← utc.microsecond_eq])
  rw [isoformatZ, String.toList_ofList, if_pos h]
  simp only [List.append_assoc, List.cons_append]

/-- Full-width fields, in the order and with the separators of a timestamp without a fraction. -/
def fullWidth (year month day hour minute second : Nat) : List Char :=
  pad 4 year ++ '-' :: (pad 2 month ++ '-' :: (pad 2 day ++ 'T' :: (pad 2 hour ++
    ':' :: (pad 2 minute ++ ':' :: (pad 2 second ++ ['Z'])))))

theorem toList_isoformatZ_whole {n : Naive} (h : n.microsecond = 0) :
    (isoformatZ n).toList =
      fullWidth n.date.year n.date.month n.date.day n.hour n.minute n.second := by
  rw [toList_isoformatZ, isoText, clockText, fractionText, if_pos h, fullWidth]
  simp only [List.append_assoc, List.cons_append, List.nil_append]

/-- A text of full-width fields is read as the instant whose text it is, or not at all. -/
theorem eq_isoformatZ_of_strptime {text : String} {year month day hour minute second : Nat}
    (hyear : year < 10000) (hmonth : month < 100) (hday : day < 100) (hhour : hour < 100)
    (hminute : minute < 100) (hsecond : second < 100)
    (htext : text.toList = fullWidth year month day hour minute second) {n : Naive}
    (hn : strptime text = some n) : n.microsecond = 0 ∧ text = isoformatZ n := by
  have hdash : '-'.toNat < 48 ∨ 57 < '-'.toNat := by decide
  have hcolon : ':'.toNat < 48 ∨ 57 < ':'.toNat := by decide
  have hfields : stampFields text.toList = some (pad 4 year, pad 2 month, pad 2 day, pad 2 hour,
      pad 2 minute, pad 2 second) := by
    rw [htext, fullWidth]
    exact stampFields_of_cuts (cut_pad_eq hdash _ _ _) (cut_pad_eq hdash _ _ _)
      (cut_pad_or (by decide) (by decide) _ _ _) (cut_pad_eq hcolon _ _ _)
      (cut_pad_eq hcolon _ _ _) (cut_pad_or (by decide) (by decide) _ _ _)
  simp only [strptime, hfields, yearField_pad (Nat.le_of_lt_succ hyear), Option.bind_eq_bind,
    Option.bind_some, Option.bind_eq_some_iff] at hn
  obtain ⟨month', hm, day', hd, hour', hh, minute', hmi, second', hs, hn⟩ := hn
  rw [field_pad_eq (by simp) hmonth hm, field_pad_eq (by simp) hday hd,
    field_pad_eq (by simp) hhour hh, field_pad_eq (by simp) hminute hmi,
    field_pad_eq (by simp) hsecond hs] at hn
  obtain ⟨⟨rfl, rfl, rfl⟩, rfl, rfl, rfl, hwhole⟩ := fields_of_ofFields? hn
  refine ⟨hwhole, String.toList_inj.mp ?_⟩
  rw [htext, toList_isoformatZ_whole hwhole]

/-! ## Order of the texts -/

/-- How the texts of two datetimes of one second compare: a point is below a `Z`. -/
def FractionBefore (a b : Naive) : Prop :=
  a.microsecond ≠ 0 ∧ (b.microsecond = 0 ∨ a.microsecond < b.microsecond)

theorem fractionText_lt (a b : Naive) :
    fractionText a ++ ['Z'] < fractionText b ++ ['Z'] ↔ FractionBefore a b := by
  have hpoint : ('.' : Char) < 'Z' := by decide
  have hzulu : ¬ ('Z' : Char) < '.' := by decide
  unfold fractionText FractionBefore
  -- what stands after the seconds decides: `.` is below `Z`
  by_cases ha : a.microsecond = 0
  · rw [if_pos ha, List.nil_append]
    by_cases hb : b.microsecond = 0
    · rw [if_pos hb]
      simp [ha]
    · rw [if_neg hb, List.cons_append, List.cons_lt_cons_iff]
      simp [ha, hzulu]
  · rw [if_neg ha]
    by_cases hb : b.microsecond = 0
    · rw [if_pos hb, List.nil_append, List.cons_append, List.cons_lt_cons_iff]
      simp [ha, hb, hpoint]
    · rw [if_neg hb, List.cons_append, List.cons_append, List.cons_lt_cons_self,
        append_lt_append_iff (by rw [pad_length, pad_length]),
        pad_lt_pad a.microsecond_lt b.microsecond_lt]
      simp [ha, hb]

theorem hms_eq_hms (a b : Naive) :
    hms a = hms b ↔ a.timeOfDay / microsPerSecond = b.timeOfDay / microsPerSecond := by
  have hlt := hms_lt_hms a b
  have hgt := hms_lt_hms b a
  constructor
  · intro h
    rw [h] at hlt hgt
    have hle := mt hlt.mpr (lt_irrefl _)
    have hge := mt hgt.mpr (lt_irrefl _)
    omega
  · intro h
    rcases lt_trichotomy (hms a) (hms b) with h' | h' | h'
    · exact absurd (hlt.mp h') (by omega)
    · exact h'
    · exact absurd (hgt.mp h') (by omega)

/-- Normalized timestamps are ordered by their seconds, and then by what follows the seconds. -/
theorem isoformatZ_lt_iff (a b : Naive) :
    isoformatZ a < isoformatZ b ↔
      a.micros / microsPerSecond < b.micros / microsPerSecond ∨
        a.micros / microsPerSecond = b.micros / microsPerSecond ∧ FractionBefore a b := by
  have htext (n : Naive) : (isoformatZ n).toList =
      (pad 4 n.date.year ++ monthDay n) ++ 'T' :: (hms n ++ (fractionText n ++ ['Z'])) := by
    rw [isoformatZ, String.toList_ofList, fractionText]
    simp only [List.append_assoc, List.cons_append]
  have hlen : (pad 4 a.date.year ++ monthDay a).length =
      (pad 4 b.date.year ++ monthDay b).length := by
    simp [monthDay_length]
  have hdate : pad 4 a.date.year ++ monthDay a = pad 4 b.date.year ++ monthDay b ↔
      a.date.toDays = b.date.toDays :=
    ⟨dateText_inj _ _, fun h => by rw [monthDay, monthDay, Date.toDays_injective h]⟩
  have hdays (n : Naive) : n.date.toDays = n.micros / microsPerSecond / secondsPerDay := by
    rw [Naive.date, Date.toDays_ofDays, Nat.div_div_eq_div_mul]
    rfl
  have hclock (n : Naive) : n.timeOfDay / microsPerSecond =
      n.micros / microsPerSecond % secondsPerDay := by
    unfold Naive.timeOfDay microsPerDay microsPerSecond secondsPerDay
    omega
  -- field by field: the days, the clock, the fraction
  rw [String.lt_iff_toList_lt, htext, htext, append_lt_append_iff hlen, dateText_lt_dateText, hdate,
    List.cons_lt_cons_self, append_lt_append_iff (by rw [hms_length, hms_length]), hms_lt_hms,
    hms_eq_hms, fractionText_lt, hdays, hdays, hclock, hclock]
  generalize a.micros / microsPerSecond = s
  generalize b.micros / microsPerSecond = t
  -- days and seconds of the day together are the seconds
  have hlt := lt_iff_div_mod_lt s t secondsPerDay
  have heq : s = t ↔ s / secondsPerDay = t / secondsPerDay ∧ s % secondsPerDay = t % secondsPerDay := by
    unfold secondsPerDay
    omega
  rw [hlt, heq, or_assoc, and_or_left, and_assoc]

/-! ## Conversion to UTC -/

theorem astimezoneUtc_eq_ok_iff {naive utc : Naive} {offset : Int} :
    astimezoneUtc naive offset = .ok utc ↔ (utc.micros : Int) = naive.micros - offset := by
  rw [← Naive.ofMicros?_eq_some_iff]
  unfold astimezoneUtc
  cases Naive.ofMicros? (naive.micros - offset) with
  | none => simp
  | some utc' => simp

theorem astimezoneUtc_ok_iff (naive : Naive) (offset : Int) :
    (∃ utc, astimezoneUtc naive offset = .ok utc) ↔
      0 ≤ (naive.micros : Int) - offset ∧ (naive.micros : Int) - offset < maxMicros := by
  simp only [astimezoneUtc_eq_ok_iff]
  constructor
  · rintro ⟨utc, hutc⟩
    have hrange := utc.inRange
    omega
  · rintro ⟨hlow, hhigh⟩
    exact ⟨⟨((naive.micros : Int) - offset).toNat, by omega⟩, Int.toNat_of_nonneg hlow⟩

theorem astimezoneUtc_zero (naive : Naive) : astimezoneUtc naive 0 = .ok naive :=
  astimezoneUtc_eq_ok_iff.mpr (Int.sub_zero _).symm

end ArgoExporter.Py
