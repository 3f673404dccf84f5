/-
  ArgoExporter.Consumer.Freshness

  When the freshness of a valid sidecar can be computed at all.  Its age needs
  the current time in UTC, and its threshold needs an integer as a float; both
  conversions raise `OverflowError` outside their range, and nothing in the
  consumer catches that.
-/

import ArgoExporter.Consumer
import ArgoExporter.MetaSchema.ErrorClasses
import ArgoExporter.Py.Isoformat

namespace ArgoExporter.Consumer

open ArgoExporter.Py

/-! ## Age -/

/-- The time is aware and its UTC time is in the years 1 to 9999. -/
def HasUtc (now : DateTime) : Prop :=
  ∃ offset, now.utcoffset = some offset ∧
    0 ≤ (now.naive.micros : Int) - offset ∧ (now.naive.micros : Int) - offset < maxMicros

section Age

variable {metaJson : Json} {now : DateTime} {offset : Int}

theorem hasUtc_iff (hoffset : now.utcoffset = some offset) :
    HasUtc now ↔ ∃ utc, astimezoneUtc now.naive offset = .ok utc := by
  rw [astimezoneUtc_ok_iff]
  constructor
  · rintro ⟨offset', hoffset', hrange⟩
    obtain rfl := Option.some.inj (hoffset.symm.trans hoffset')
    exact hrange
  · intro hrange
    exact ⟨offset, hoffset, hrange⟩

theorem age_of_stamp {generatedAt : String} {generated : Naive}
    (hstamp : metaJson.get "generated_at" = .str generatedAt)
    (hgenerated : strptime generatedAt = some generated) (hoffset : now.utcoffset = some offset) :
    freshnessAgeSeconds metaJson now =
      (astimezoneUtc now.naive offset).map fun utc => totalSeconds utc generated := by
  simp only [freshnessAgeSeconds, hoffset, hstamp, hgenerated]
  cases astimezoneUtc now.naive offset with
  | ok utc => rfl
  | error e => rfl

end Age

/-! ## Threshold -/

/-- A finite number of seconds that is not negative, as `max_cycle_seconds` may be. -/
inductive CycleBound : Json → Rat → Prop where
  | int (n : Int) (h : 0 ≤ n) : CycleBound (.int n) n
  | float (x : Rat) (h : 0 ≤ x) : CycleBound (.float (.fin x)) x

/-- The integer that the threshold converts to a float: the sum of two integers, or the poll
    interval when the bound is a float already. -/
def convertedInt (maxCycleSeconds : Json) (pollInterval : Int) : Int :=
  match maxCycleSeconds with
  | .int n => n + pollInterval
  | _ => pollInterval

section Threshold

variable {metaJson : Json} {pollInterval : Int}

/-- The sum of two integers is converted; the check of the bound converts a smaller one. -/
theorem threshold_int (hinterval : metaJson.get "poll_interval_seconds" = .int pollInterval)
    (hpoll : 1 ≤ pollInterval) {m : Int} (hm : 0 ≤ m) :
    freshnessThresholdSeconds metaJson (.int m) = PyFloat.ofInt (m + pollInterval) := by
  have hsum : freshnessThresholdSeconds metaJson (.int m) =
      PyFloat.ofInt m >>= fun _ => PyFloat.ofInt (m + pollInterval) := by
    simp only [freshnessThresholdSeconds, checkMaxCycle, if_neg (not_lt.mpr hm), hinterval,
      if_neg (not_lt.mpr hpoll), addSeconds]
    cases PyFloat.ofInt m with
    | ok x => rfl
    | error e => rfl
  rw [hsum]
  rcases lt_or_ge (m : Rat) floatLimit with hlt | hge
  · rw [PyFloat.ofInt_of_lt_limit hm hlt, ok_bind]
  · have hge' : floatLimit ≤ (m + pollInterval : Int) := by
      have hle : (m : Rat) ≤ (m + pollInterval : Int) := by exact_mod_cast (by omega)
      exact le_trans hge hle
    rw [PyFloat.ofInt_of_limit_le hm hge, PyFloat.ofInt_of_limit_le (by omega) hge']
    rfl

theorem threshold_float (hinterval : metaJson.get "poll_interval_seconds" = .int pollInterval)
    (hpoll : 1 ≤ pollInterval) {x : Rat} (hx : 0 ≤ x) :
    freshnessThresholdSeconds metaJson (.float (.fin x)) =
      (PyFloat.ofInt pollInterval).map fun poll => (PyFloat.fin x).add poll := by
  have hcheck : (PyFloat.fin x).isFinite = true ∧ ¬ (PyFloat.fin x).lt (.fin 0) = true :=
    ⟨rfl, by simpa [PyFloat.lt] using hx⟩
  simp only [freshnessThresholdSeconds, checkMaxCycle, if_pos hcheck, hinterval,
    if_neg (not_lt.mpr hpoll), addSeconds]
  cases PyFloat.ofInt pollInterval with
  | ok poll => rfl
  | error e => rfl

theorem threshold_isOk_iff (hinterval : metaJson.get "poll_interval_seconds" = .int pollInterval)
    (hpoll : 1 ≤ pollInterval) {maxCycleSeconds : Json} {q : Rat}
    (hbound : CycleBound maxCycleSeconds q) :
    (∃ threshold, freshnessThresholdSeconds metaJson maxCycleSeconds = .ok threshold) ↔
      (convertedInt maxCycleSeconds pollInterval : Rat) < floatLimit := by
  cases hbound with
  | int m hm =>
      rw [threshold_int hinterval hpoll hm]
      exact PyFloat.ofInt_isOk_iff (by omega)
  | float x hx =>
      rw [threshold_float hinterval hpoll hx, exists_map_eq_ok]
      exact PyFloat.ofInt_isOk_iff (by omega)

end Threshold

/-! ## Freshness of a valid sidecar -/

/-- The integer in the threshold of a sidecar is in the range of a float. -/
def ThresholdInRange (metaJson maxCycleSeconds : Json) : Prop :=
  ∀ pollInterval, metaJson.get "poll_interval_seconds" = .int pollInterval →
    (convertedInt maxCycleSeconds pollInterval : Rat) < floatLimit

section Valid

variable {Bytes : Type} {py : Platform Bytes} {metaJson : Json}

/-- The freshness of a valid sidecar is decided exactly when the current time has a UTC time and the
    threshold is in range. -/
theorem isFresh_isOk_iff (hvalid : MetaSchema.validate py metaJson = .ok ())
    {check : FreshnessCheck} (haware : check.now.utcoffset ≠ none) {q : Rat}
    (hbound : CycleBound check.maxCycleSeconds q) :
    (∃ fresh, isFresh metaJson check.now check.maxCycleSeconds = .ok fresh) ↔
      HasUtc check.now ∧ ThresholdInRange metaJson check.maxCycleSeconds := by
  have hconforms := MetaSchema.conforms_of_validate py hvalid
  obtain ⟨generatedAt, hstamp, -, hread⟩ := hconforms.generatedAt
  obtain ⟨generated, hgenerated⟩ := Option.ne_none_iff_exists'.mp hread
  obtain ⟨pollInterval, hinterval, hpoll⟩ := hconforms.pollInterval
  obtain ⟨offset, hoffset⟩ := Option.ne_none_iff_exists'.mp haware
  have hage : (∃ age, freshnessAgeSeconds metaJson check.now = .ok age) ↔ HasUtc check.now := by
    rw [age_of_stamp hstamp hgenerated hoffset, exists_map_eq_ok, hasUtc_iff hoffset]
  have hthreshold : (∃ threshold,
      freshnessThresholdSeconds metaJson check.maxCycleSeconds = .ok threshold) ↔
        ThresholdInRange metaJson check.maxCycleSeconds := by
    rw [threshold_isOk_iff hinterval hpoll hbound]
    refine ⟨fun h poll hpoll' => ?_, fun h => h pollInterval hinterval⟩
    obtain rfl := Json.int.inj (hinterval.symm.trans hpoll')
    exact h
  rw [← hage, ← hthreshold]
  constructor
  · rintro ⟨fresh, h⟩
    obtain ⟨age, hage, h⟩ := bind_eq_ok.mp h
    obtain ⟨threshold, hthreshold, -⟩ := bind_eq_ok.mp h
    exact ⟨⟨age, hage⟩, ⟨threshold, hthreshold⟩⟩
  · rintro ⟨⟨age, hage⟩, ⟨threshold, hthreshold⟩⟩
    exact ⟨age.lt threshold, by rw [isFresh, hage, ok_bind, hthreshold, ok_bind, pure_eq_ok]⟩

end Valid

end ArgoExporter.Consumer
