/-
  ArgoExporter.Consumer.StoredBytes

  Which stored bytes the reader survives.  Whatever the two Parquet objects
  hold, a read ends with a result; only the marker can crash it, by its
  nesting or by numbers and times that the freshness arithmetic cannot take.
-/

import ArgoExporter.Consumer.StoredReads

namespace ArgoExporter.Consumer

open ArgoExporter.Py
open ArgoExporter.S3io

variable {Bytes : Type} {py : Platform Bytes}

/-! ## Specification -/

/-- `json.loads` of bytes raises subclasses of `ValueError`, or `RecursionError` on deep nesting. -/
def LoadsRaises (py : Platform Bytes) : Prop :=
  ∀ data e, py.jsonLoads data = .error e → e.cls.isValueError = true ∨ e.cls = .recursionError

/-- A check with an aware time and a cycle bound that is a finite number and not negative. -/
structure ValidCheck (check : FreshnessCheck) : Prop where
  aware : check.now.utcoffset ≠ none
  bound : ∃ q, CycleBound check.maxCycleSeconds q

/-- A read that returned the stored candidate as fresh, or the last complete publication. -/
def Survives (py : Platform Bytes) (store : ObjectStore Bytes) (pfx : String)
    (last : Option (Publication Bytes)) (outcome : Except Exc (PublicationResult Bytes)) : Prop :=
  ∃ result, outcome = .ok result ∧ (Retains last result ∨
    ∃ publication, StoredCandidate py store pfx (some publication) ∧
      result = ⟨some publication, .fresh, none⟩)

/-- The marker does not reach the recursion limit and, where it is valid and compared with the
    time, the time has a UTC time and the threshold is in the range of a float. -/
structure Harmless (py : Platform Bytes) (freshness : Option FreshnessCheck) (marker : Bytes) :
    Prop where
  nesting : ∀ e, py.jsonLoads marker = .error e → e.cls ≠ .recursionError
  arithmetic : ∀ check ∈ freshness, ∀ metaJson, py.jsonLoads marker = .ok metaJson →
    MetaSchema.validate py metaJson = .ok () →
    HasUtc check.now ∧ ThresholdInRange metaJson check.maxCycleSeconds

/-! ## Results of a read -/

section Results

variable {store : ObjectStore Bytes} {pfx : String} {last : Option (Publication Bytes)}

theorem survives_retained (reason : PublicationReason) :
    Survives py store pfx last (.ok (retainedResult last reason)) :=
  ⟨_, rfl, Or.inl ⟨rfl, retainedResult_not_fresh last reason⟩⟩

theorem not_survives_error (e : Exc) : ¬ Survives py store pfx last (.error e) := by
  rintro ⟨result, h, _⟩
  exact absurd h (by simp)

/-- Without a freshness check the selection of a valid candidate always returns. -/
theorem survives_select {marker : Bytes} {metaJson : Json}
    (hmarker : store (key pfx "meta.json") = some marker)
    (hdecode : py.jsonLoads marker = .ok metaJson)
    (hvalid : MetaSchema.validate py metaJson = .ok ()) :
    Survives py store pfx last
      (selectGenerationResult py (some (behindMarker store pfx metaJson)) last none) := by
  obtain ⟨rejection, hrejection⟩ :=
    rejectionReason_of_valid (behindMarker store pfx metaJson) hvalid
  cases rejection with
  | some reason =>
      rw [select_of_rejected last none hrejection]
      exact survives_retained reason
  | none =>
      rw [select_of_accepted last hrejection]
      exact ⟨_, rfl, Or.inr ⟨_, .present hmarker hdecode, rfl⟩⟩

/-- A valid marker is survived exactly when its freshness can be decided. -/
theorem survives_valid_iff {marker : Bytes} {metaJson : Json}
    (hmarker : store (key pfx "meta.json") = some marker)
    (hdecode : py.jsonLoads marker = .ok metaJson)
    (hvalid : MetaSchema.validate py metaJson = .ok ()) {check : FreshnessCheck} :
    Survives py store pfx last (readStore py store pfx last (some check)) ↔
      ∃ fresh, isFresh metaJson check.now check.maxCycleSeconds = .ok fresh := by
  rw [readStore_of_valid_check last hmarker hdecode hvalid check]
  cases isFresh metaJson check.now check.maxCycleSeconds with
  | error e => exact iff_of_false (not_survives_error e) (by simp)
  | ok fresh =>
      refine iff_of_true ?_ ⟨fresh, rfl⟩
      cases fresh with
      | true => exact survives_select hmarker hdecode hvalid
      | false => exact survives_retained .stale

end Results

/-! ## Whatever is stored -/

section Markers

variable {freshness : Option FreshnessCheck} {marker : Bytes}

theorem caughtByMarker_iff_of_loads (hloads : LoadsRaises py) {e : Exc}
    (h : py.jsonLoads marker = .error e) :
    caughtByMarker e.cls = true ↔ e.cls ≠ .recursionError := by
  rcases hloads marker e h with hvalue | hrecursion
  · refine iff_of_true (by simp [caughtByMarker, hvalue]) fun hrecursion => ?_
    rw [hrecursion] at hvalue
    exact absurd hvalue (by decide)
  · rw [hrecursion]
    decide

theorem harmless_undecodable_iff {e : Exc} (hdecode : py.jsonLoads marker = .error e) :
    Harmless py freshness marker ↔ e.cls ≠ .recursionError := by
  constructor
  · intro h
    exact h.nesting e hdecode
  · intro hne
    constructor
    · intro e' he'
      rw [hdecode, Except.error.injEq] at he'
      exact he' ▸ hne
    · intro check _ metaJson hok
      rw [hdecode] at hok
      exact absurd hok (by simp)

theorem harmless_decoded_iff {metaJson : Json} (hdecode : py.jsonLoads marker = .ok metaJson) :
    Harmless py freshness marker ↔ ∀ check ∈ freshness, MetaSchema.validate py metaJson = .ok () →
      HasUtc check.now ∧ ThresholdInRange metaJson check.maxCycleSeconds := by
  constructor
  · intro h check hcheck
    exact h.arithmetic check hcheck metaJson hdecode
  · intro h
    constructor
    · intro e he
      rw [hdecode] at he
      exact absurd he (by simp)
    · intro check hcheck metaJson' hok
      obtain rfl := Except.ok.inj (hdecode.symm.trans hok)
      exact h check hcheck

end Markers

/-- A read returns the stored candidate or the last complete publication, for every content of the
    three keys, exactly when the marker is harmless. -/
theorem readStore_survives_iff (hloads : LoadsRaises py) {freshness : Option FreshnessCheck}
    (hcheck : ∀ check ∈ freshness, ValidCheck check) (store : ObjectStore Bytes) (pfx : String)
    (last : Option (Publication Bytes)) :
    Survives py store pfx last (readStore py store pfx last freshness) ↔
      ∀ marker, store (key pfx "meta.json") = some marker → Harmless py freshness marker := by
  -- the cases are what the read finds: no marker, undecodable, invalid, or valid
  cases hmarker : store (key pfx "meta.json") with
  | none =>
      rw [readStore_of_absent last hmarker]
      exact iff_of_true (survives_retained .missing) (by simp)
  | some marker =>
      have hone : (∀ data, some marker = some data → Harmless py freshness data) ↔
          Harmless py freshness marker := by simp
      rw [hone]
      cases hdecode : py.jsonLoads marker with
      | error e =>
          rw [readStore_of_undecodable last hmarker hdecode, harmless_undecodable_iff hdecode,
            ← caughtByMarker_iff_of_loads hloads hdecode]
          split_ifs with hcaught
          · exact iff_of_true (survives_retained .invalid) hcaught
          · exact iff_of_false (not_survives_error e) hcaught
      | ok metaJson =>
          rw [harmless_decoded_iff hdecode]
          cases hvalid : MetaSchema.validate py metaJson with
          | error e =>
              rw [readStore_of_invalid last hmarker hdecode hvalid]
              exact iff_of_true (survives_retained .invalid) (by simp)
          | ok u =>
              cases freshness with
              | none =>
                  rw [readStore_of_valid last hmarker hdecode hvalid]
                  exact iff_of_true (survives_select hmarker hdecode hvalid) (by simp)
              | some check =>
                  obtain ⟨haware, q, hbound⟩ := hcheck check rfl
                  rw [survives_valid_iff hmarker hdecode hvalid,
                    isFresh_isOk_iff hvalid haware hbound]
                  simp

/-! ## Examples -/

theorem loadsRaises_reference : LoadsRaises Reference.platform := by
  intro data e h
  cases data with
  | json j => exact absurd h (by simp [Reference.platform])
  | text s =>
      rw [← Except.error.inj h]
      exact Or.inl rfl
  | parquet t =>
      rw [← Except.error.inj h]
      exact Or.inl rfl

theorem validCheck_noon : ValidCheck ⟨.int 60, Reference.noon⟩ :=
  ⟨by decide, 60, .int 60 (by norm_num)⟩

/-- A marker whose two files are missing does no harm at noon. -/
theorem readStore_survives_iff_reference :
    Survives Reference.platform (Reference.markerOnly (Reference.marker 60)) "argo/data" none
      (readStore Reference.platform (Reference.markerOnly (Reference.marker 60)) "argo/data" none
        (some ⟨.int 60, Reference.noon⟩)) := by
  refine (readStore_survives_iff loadsRaises_reference ?_ _ _ _).mpr ?_
  · rintro _ ⟨⟩
    exact validCheck_noon
  · intro marker hmarker
    have hdata : marker = .json (Reference.marker 60) :=
      Option.some.inj (hmarker.symm.trans (Reference.markerOnly_marker _))
    subst hdata
    rw [harmless_decoded_iff rfl]
    rintro _ ⟨⟩ _
    refine ⟨⟨0, rfl, by decide, by decide⟩, fun pollInterval hinterval => ?_⟩
    obtain rfl := Json.int.inj hinterval
    refine lt_of_lt_of_le ?_ (PyFloat.pow_le_floatLimit (k := 7) (by norm_num))
    rw [convertedInt]
    norm_num

theorem floatLimit_le_pow : floatLimit ≤ 10 ^ 400 := by
  have hpow : (2 : Rat) ^ 1024 ≤ (2 ^ 3) ^ 400 := by
    rw [← pow_mul]
    exact pow_le_pow_right₀ one_le_two (by norm_num)
  calc floatLimit ≤ 2 ^ 1024 := sub_le_self _ (pow_nonneg (by norm_num) _)
    _ ≤ (2 ^ 3) ^ 400 := hpow
    _ ≤ 10 ^ 400 := pow_le_pow_left₀ (by norm_num) (by norm_num) 400

/-- The schema accepts a poll interval of four hundred digits, and the reader cannot compare it. -/
theorem hugeInterval_crashes :
    LoadsRaises Reference.platform ∧ ValidCheck ⟨.int 60, Reference.noon⟩ ∧
    ¬ Survives Reference.platform (Reference.markerOnly (Reference.marker (10 ^ 400))) "argo/data"
        none (readStore Reference.platform (Reference.markerOnly (Reference.marker (10 ^ 400)))
          "argo/data" none (some ⟨.int 60, Reference.noon⟩)) := by
  refine ⟨loadsRaises_reference, validCheck_noon, ?_⟩
  obtain ⟨haware, q, hbound⟩ := validCheck_noon
  have hvalid : MetaSchema.validate Reference.platform (Reference.marker (10 ^ 400)) = .ok () := by
    decide +kernel
  rw [survives_valid_iff (Reference.markerOnly_marker _) rfl hvalid,
    isFresh_isOk_iff hvalid haware hbound]
  rintro ⟨_, hrange⟩
  have hlt := hrange (10 ^ 400) rfl
  have hsum : (convertedInt (.int 60) (10 ^ 400) : Rat) = 60 + 10 ^ 400 := by
    rw [convertedInt, Int.cast_add, Int.cast_pow, Int.cast_ofNat, Int.cast_ofNat]
  rw [hsum] at hlt
  exact absurd hlt (not_lt.mpr (le_trans floatLimit_le_pow (le_add_of_nonneg_left (by norm_num))))

end ArgoExporter.Consumer
