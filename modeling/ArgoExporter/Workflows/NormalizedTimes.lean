/-
  ArgoExporter.Workflows.NormalizedTimes

  The timestamps of a row against its duration.  A normalized timestamp denotes
  the instant of its source and is a fixed point of normalization, so the
  duration that `duration_seconds` computes from the sources is the one the
  published columns have.
-/

import ArgoExporter.Workflows.StepOrder

namespace ArgoExporter.Workflows

open ArgoExporter.Lib
open ArgoExporter.Py
open ArgoExporter.ParquetIo

/-! ## Specification -/

/-- A UTC text of the instant that the source denotes, and one that normalizes to itself. -/
structure EmitsInstant (source : Json) (text : String) : Prop where
  endsInZulu : text.toList.getLast? = some 'Z'
  instant : ∃ instant, utcInstant source = some instant ∧ utcInstant (.str text) = some instant
  stable : normalizeTimestamp (.str text) = .ok (some text)

/-- How a duration goes with the sources and the normalized texts of its ends. -/
structure ExplainsDuration (a b : Json) (start finish : Option String) (duration : Option Int) :
    Prop where
  isSome_iff : duration.isSome = true ↔ start.isSome = true ∧ finish.isSome = true
  ofColumns : durationSeconds (Json.ofStr? start) (Json.ofStr? finish) = .ok duration
  nonneg : ∀ seconds, duration = some seconds →
    ∀ i j, utcInstant a = some i → utcInstant b = some j → i ≤ j → 0 ≤ seconds

/-! ## A normalized timestamp -/

theorem parseTs_isoformatZ (utc : Naive) :
    parseTs (.str (isoformatZ utc)) = some ⟨utc, some 0⟩ := by
  have hne : isoformatZ utc ≠ "" := by
    intro h
    have hlast := getLast?_isoformatZ utc
    rw [h] at hlast
    exact absurd hlast (by decide)
  rw [parseTs, if_neg hne, fromisoformat_replaceZulu]

theorem utcInstant_isoformatZ (utc : Naive) :
    utcInstant (.str (isoformatZ utc)) = some (utc.micros : Int) := by
  rw [utcInstant_of_usable (parseTs_isoformatZ utc), Int.sub_zero]

theorem normalizeTimestamp_isoformatZ (utc : Naive) :
    normalizeTimestamp (.str (isoformatZ utc)) = .ok (some (isoformatZ utc)) := by
  rw [normalizeTimestamp_of_usable (parseTs_isoformatZ utc), astimezoneUtc_zero]
  rfl

theorem utcInRange_isoformatZ (utc : Naive) : UtcInRange (.str (isoformatZ utc)) :=
  (normalizeTimestamp_ok_iff _).mp ⟨_, normalizeTimestamp_isoformatZ utc⟩

/-- Normalization fails, gives nothing, or gives the text of the instant. -/
theorem normalizeTimestamp_eq_some {value : Json} {text : String}
    (h : normalizeTimestamp value = .ok (some text)) :
    ∃ utc : Naive, text = isoformatZ utc ∧ utcInstant value = some (utc.micros : Int) := by
  by_cases husable : Usable value
  · obtain ⟨naive, offset, hparse⟩ := husable
    rw [normalizeTimestamp_of_usable hparse] at h
    obtain ⟨utc, hutc, htext⟩ := map_eq_ok.mp h
    refine ⟨utc, (Option.some.inj htext).symm, ?_⟩
    rw [utcInstant_of_usable hparse, astimezoneUtc_eq_ok_iff.mp hutc]
  · rw [normalizeTimestamp_of_unusable husable] at h
    exact absurd h (by simp)

theorem emitsInstant_of_normalize {value : Json} {text : String}
    (h : normalizeTimestamp value = .ok (some text)) : EmitsInstant value text := by
  obtain ⟨utc, rfl, hinstant⟩ := normalizeTimestamp_eq_some h
  exact ⟨getLast?_isoformatZ utc, ⟨_, hinstant, utcInstant_isoformatZ utc⟩,
    normalizeTimestamp_isoformatZ utc⟩

/-! ## A duration -/

theorem usable_of_utcInstant {value : Json} {instant : Int} (h : utcInstant value = some instant) :
    ∃ naive offset, parseTs value = some ⟨naive, some offset⟩ ∧
      instant = (naive.micros : Int) - offset := by
  by_cases husable : Usable value
  · obtain ⟨naive, offset, hparse⟩ := husable
    rw [utcInstant_of_usable hparse, Option.some.injEq] at h
    exact ⟨naive, offset, hparse, h.symm⟩
  · rw [utcInstant_of_unusable husable] at h
    exact absurd h (by simp)

/-- A duration is a function of the two instants. -/
theorem durationSeconds_of_instants {a b : Json} (ha : UtcInRange a) (hb : UtcInRange b) {i j : Int}
    (hi : utcInstant a = some i) (hj : utcInstant b = some j) :
    durationSeconds a b =
      .ok (some (truncate (Binary64.round ((j - i : Int) / microsPerSecond)))) := by
  obtain ⟨start, startOffset, hstart, rfl⟩ := usable_of_utcInstant hi
  obtain ⟨finish, finishOffset, hfinish, rfl⟩ := usable_of_utcInstant hj
  obtain ⟨startUtc, hstartUtc⟩ := (astimezoneUtc_ok_iff _ _).mpr (ha _ _ hstart)
  obtain ⟨finishUtc, hfinishUtc⟩ := (astimezoneUtc_ok_iff _ _).mpr (hb _ _ hfinish)
  unfold durationSeconds
  rw [hstart, hfinish]
  dsimp only
  rw [hfinishUtc, hstartUtc, ok_bind, ok_bind, totalSecondsBetween,
    astimezoneUtc_eq_ok_iff.mp hstartUtc, astimezoneUtc_eq_ok_iff.mp hfinishUtc]
  rfl

theorem truncate_round_nonneg {micros : Int} (h : 0 ≤ micros) :
    0 ≤ truncate (Binary64.round (micros / microsPerSecond)) := by
  have hexact : (0 : Rat) ≤ micros / microsPerSecond :=
    div_nonneg (by exact_mod_cast h) (by norm_num [microsPerSecond])
  exact truncate_nonneg (Binary64.round_nonneg hexact)

/-- Without a normalized end there is no duration, whatever the other end. -/
theorem explainsDuration_none {a b : Json} {start finish : Option String}
    (h : start = none ∨ finish = none) : ExplainsDuration a b start finish none where
  isSome_iff := by
    rcases h with rfl | rfl <;> simp
  ofColumns := by
    have hnull : ¬ Usable .null := fun ⟨naive, offset, hparse⟩ => absurd hparse (by simp [parseTs])
    apply durationSeconds_of_unusable
    rcases h with rfl | rfl
    · exact Or.inl hnull
    · exact Or.inr hnull
  nonneg := fun seconds hnone => absurd hnone (by simp)

/-- Two ends in range have their duration from the normalized texts as from the sources. -/
theorem explainsDuration_some {a b : Json} (ha : UtcInRange a) (hb : UtcInRange b)
    {start finish : Naive} (hi : utcInstant a = some (start.micros : Int))
    (hj : utcInstant b = some (finish.micros : Int)) {duration : Option Int}
    (h : durationSeconds a b = .ok duration) :
    ExplainsDuration a b (some (isoformatZ start)) (some (isoformatZ finish)) duration := by
  -- the duration of the sources and that of the columns are the same difference of instants
  have hsources := durationSeconds_of_instants ha hb hi hj
  have hcolumns := durationSeconds_of_instants (utcInRange_isoformatZ start)
    (utcInRange_isoformatZ finish) (utcInstant_isoformatZ start) (utcInstant_isoformatZ finish)
  rw [h, Except.ok.injEq] at hsources
  refine ⟨?_, ?_, ?_⟩
  · rw [hsources]
    exact ⟨fun _ => ⟨rfl, rfl⟩, fun _ => rfl⟩
  · rw [hsources]
    exact hcolumns
  · intro seconds hseconds i j hi' hj' hle
    rw [hi, Option.some.injEq] at hi'
    rw [hj, Option.some.injEq] at hj'
    rw [hsources, Option.some.injEq] at hseconds
    rw [← hseconds]
    apply truncate_round_nonneg
    omega

/-- The timestamps and the duration of a row that were computed explain each other. -/
theorem explainsDuration_of_columns {a b : Json} {start finish : Option String}
    {duration : Option Int} (hstart : normalizeTimestamp a = .ok start)
    (hfinish : normalizeTimestamp b = .ok finish) (hduration : durationSeconds a b = .ok duration) :
    ExplainsDuration a b start finish duration := by
  have ha : UtcInRange a := (normalizeTimestamp_ok_iff a).mp ⟨start, hstart⟩
  have hb : UtcInRange b := (normalizeTimestamp_ok_iff b).mp ⟨finish, hfinish⟩
  -- a null column is an unusable timestamp, and then there is no duration
  cases start with
  | none =>
      have hunusable : ¬ Usable a := unusable_of_null hstart rfl
      rw [durationSeconds_of_unusable (Or.inl hunusable), Except.ok.injEq] at hduration
      rw [← hduration]
      exact explainsDuration_none (Or.inl rfl)
  | some startText =>
      cases finish with
      | none =>
          have hunusable : ¬ Usable b := unusable_of_null hfinish rfl
          rw [durationSeconds_of_unusable (Or.inr hunusable), Except.ok.injEq] at hduration
          rw [← hduration]
          exact explainsDuration_none (Or.inr rfl)
      | some finishText =>
          obtain ⟨startUtc, rfl, hi⟩ := normalizeTimestamp_eq_some hstart
          obtain ⟨finishUtc, rfl, hj⟩ := normalizeTimestamp_eq_some hfinish
          exact explainsDuration_some ha hb hi hj hduration

/-- The timestamps of a row denote the instants of their sources, are stable, and have the duration
    of the row between them. -/
theorem normalized_times_explain_duration {a b : Json} (ha : UtcInRange a) (hb : UtcInRange b) :
    ∃ start finish duration, normalizeTimestamp a = .ok start ∧ normalizeTimestamp b = .ok finish ∧
      durationSeconds a b = .ok duration ∧
      (∀ text, start = some text → EmitsInstant a text) ∧
      (∀ text, finish = some text → EmitsInstant b text) ∧
      ExplainsDuration a b start finish duration := by
  obtain ⟨start, hstart⟩ := (normalizeTimestamp_ok_iff a).mpr ha
  obtain ⟨finish, hfinish⟩ := (normalizeTimestamp_ok_iff b).mpr hb
  obtain ⟨duration, hduration⟩ := durationSeconds_ok ha hb
  refine ⟨start, finish, duration, hstart, hfinish, hduration, ?_, ?_,
    explainsDuration_of_columns hstart hfinish hduration⟩
  · rintro text rfl
    exact emitsInstant_of_normalize hstart
  · rintro text rfl
    exact emitsInstant_of_normalize hfinish

/-- A start with an offset and a finish with a fraction of a second. -/
theorem normalized_times_explain_duration_offset :
    ∃ start finish duration,
      normalizeTimestamp (.str "2026-01-01T01:30:00+01:30") = .ok start ∧
        normalizeTimestamp (.str "2026-01-01T00:00:05.900Z") = .ok finish ∧
        durationSeconds (.str "2026-01-01T01:30:00+01:30") (.str "2026-01-01T00:00:05.900Z") =
          .ok duration ∧
        (∀ text, start = some text → EmitsInstant (.str "2026-01-01T01:30:00+01:30") text) ∧
        (∀ text, finish = some text → EmitsInstant (.str "2026-01-01T00:00:05.900Z") text) ∧
        ExplainsDuration (.str "2026-01-01T01:30:00+01:30") (.str "2026-01-01T00:00:05.900Z") start
          finish duration := by
  have hstart : parseTs (.str "2026-01-01T01:30:00+01:30") =
      some ⟨⟨63902827800000000, by decide⟩, some 5400000000⟩ := by decide
  have hfinish : parseTs (.str "2026-01-01T00:00:05.900Z") =
      some ⟨⟨63902822405900000, by decide⟩, some 0⟩ := by decide
  apply normalized_times_explain_duration
  · intro naive offset hparse
    rw [hstart, Option.some.injEq, DateTime.mk.injEq, Option.some.injEq] at hparse
    obtain ⟨rfl, rfl⟩ := hparse
    decide
  · intro naive offset hparse
    rw [hfinish, Option.some.injEq, DateTime.mk.injEq, Option.some.injEq] at hparse
    obtain ⟨rfl, rfl⟩ := hparse
    decide

end ArgoExporter.Workflows
