/-
  ArgoExporter.Consumer.SelectionPaths

  The two ways to a selection: `read_generation_result` compares the marker
  with the time before it looks at the files, `select_generation_result` looks
  at the files first.  They decide the same wherever the time can be compared
  with a valid marker.
-/

import ArgoExporter.Consumer.StoredReads

namespace ArgoExporter.Consumer

open ArgoExporter.Py
open ArgoExporter.S3io

variable {Bytes : Type} {py : Platform Bytes}

/-! ## Specification -/

/-- Both paths return, with one status and one publication. -/
def Agree (read selected : Except Exc (PublicationResult Bytes)) : Prop :=
  ∃ result result', read = .ok result ∧ selected = .ok result' ∧
    result.status = result'.status ∧ result.publication = result'.publication

/-- A check for this marker: an aware time, and a finite cycle bound that is not negative and whose
    sum with the poll interval is in the range of a float. -/
structure UsableCheck (metaJson : Json) (check : FreshnessCheck) : Prop where
  aware : check.now.utcoffset ≠ none
  bound : ∃ q, CycleBound check.maxCycleSeconds q ∧
    ∀ pollInterval, metaJson.get "poll_interval_seconds" = .int pollInterval →
      q + pollInterval < floatLimit

theorem thresholdInRange_of_sum {metaJson maxCycleSeconds : Json} {q : Rat}
    (hbound : CycleBound maxCycleSeconds q)
    (hsum : ∀ pollInterval, metaJson.get "poll_interval_seconds" = .int pollInterval →
      q + pollInterval < floatLimit) : ThresholdInRange metaJson maxCycleSeconds := by
  intro pollInterval hinterval
  have hlt := hsum pollInterval hinterval
  cases hbound with
  | int n hn =>
      rw [convertedInt, Int.cast_add]
      exact hlt
  | float x hx => exact lt_of_le_of_lt (le_add_of_nonneg_left hx) hlt

/-! ## The two paths -/

section Paths

variable (last : Option (Publication Bytes))

theorem agree_retained (reason reason' : PublicationReason) :
    Agree (.ok (retainedResult last reason)) (.ok (retainedResult last reason')) :=
  ⟨_, _, rfl, rfl, rfl, rfl⟩

theorem agree_self {outcome : Except Exc (PublicationResult Bytes)}
    (h : ∃ result, outcome = .ok result) : Agree outcome outcome := by
  obtain ⟨result, hresult⟩ := h
  exact ⟨result, result, hresult, hresult, rfl, rfl⟩

theorem select_isOk {candidate : Publication Bytes}
    (hvalid : MetaSchema.validate py candidate.meta = .ok ()) :
    ∃ result, selectGenerationResult py (some candidate) last none = .ok result := by
  obtain ⟨rejection, hrejection⟩ := rejectionReason_of_valid candidate hvalid
  cases rejection with
  | some reason => exact ⟨_, select_of_rejected last none hrejection⟩
  | none => exact ⟨_, select_of_accepted last hrejection⟩

/-- Once the freshness of a valid marker is decided, it does not matter which check comes first. -/
theorem agree_of_isFresh {store : ObjectStore Bytes} {pfx : String} {data : Bytes}
    {metaJson : Json} (hmarker : store (key pfx "meta.json") = some data)
    (hdecode : py.jsonLoads data = .ok metaJson)
    (hvalid : MetaSchema.validate py metaJson = .ok ()) {check : FreshnessCheck} {fresh : Bool}
    (hfresh : isFresh metaJson check.now check.maxCycleSeconds = .ok fresh) :
    Agree (readStore py store pfx last (some check))
      (selectGenerationResult py (some (behindMarker store pfx metaJson)) last (some check)) := by
  obtain ⟨rejection, hrejection⟩ :=
    rejectionReason_of_valid (behindMarker store pfx metaJson) hvalid
  have hfresh' : isFresh (behindMarker store pfx metaJson).meta check.now check.maxCycleSeconds =
      .ok fresh := hfresh
  rw [readStore_of_valid_check last hmarker hdecode hvalid check, hfresh, ok_bind]
  cases rejection with
  -- an incomplete or torn candidate is retained on both paths, fresh or stale
  | some reason =>
      rw [select_of_rejected last (some check) hrejection,
        select_of_rejected last none hrejection]
      cases fresh with
      | true => exact agree_retained last reason reason
      | false => exact agree_retained last .stale reason
  | none =>
      rw [select_of_accepted_check last check hrejection, select_of_accepted last hrejection,
        hfresh']
      cases fresh with
      | true => exact agree_self ⟨_, rfl⟩
      | false => exact agree_retained last .stale .stale

/-- A read that cannot decide about the freshness of a valid marker raises. -/
theorem not_agree_of_isFresh_error {store : ObjectStore Bytes} {pfx : String} {data : Bytes}
    {metaJson : Json} (hmarker : store (key pfx "meta.json") = some data)
    (hdecode : py.jsonLoads data = .ok metaJson)
    (hvalid : MetaSchema.validate py metaJson = .ok ()) {check : FreshnessCheck} {e : Exc}
    (hfresh : isFresh metaJson check.now check.maxCycleSeconds = .error e)
    (selected : Except Exc (PublicationResult Bytes)) :
    ¬ Agree (readStore py store pfx last (some check)) selected := by
  rw [readStore_of_valid_check last hmarker hdecode hvalid check, hfresh]
  rintro ⟨result, _, hread, _⟩
  exact absurd hread (by simp)

end Paths

/-- The two paths return one status and one publication exactly when a valid candidate, if there is
    one, is not compared with a time outside the UTC years 1 to 9999. -/
theorem selectionPaths_agree_iff {store : ObjectStore Bytes} {pfx : String}
    {candidate : Option (Publication Bytes)} (hcandidate : StoredCandidate py store pfx candidate)
    (last : Option (Publication Bytes)) {freshness : Option FreshnessCheck}
    (hcheck : ∀ check ∈ freshness, ∀ publication ∈ candidate,
      UsableCheck publication.meta check) :
    Agree (readStore py store pfx last freshness)
        (selectGenerationResult py candidate last freshness) ↔
      ∀ check ∈ freshness, ∀ publication ∈ candidate,
        MetaSchema.validate py publication.meta = .ok () → HasUtc check.now := by
  cases hcandidate with
  | absent hmarker =>
      rw [readStore_of_absent last hmarker]
      exact iff_of_true (agree_retained last .missing .missing) (by simp)
  | @present data metaJson hmarker hdecode =>
      cases hvalid : MetaSchema.validate py metaJson with
      | error e =>
          have hinvalid : MetaSchema.validate py (behindMarker store pfx metaJson).meta =
              .error e := hvalid
          rw [readStore_of_invalid last hmarker hdecode hvalid,
            select_of_rejected last freshness (rejectionReason_of_invalid hinvalid)]
          refine iff_of_true (agree_retained last .invalid .invalid) ?_
          rintro check _ _ ⟨⟩ hok
          rw [hinvalid] at hok
          exact absurd hok (by simp)
      | ok u =>
          have hok : MetaSchema.validate py (behindMarker store pfx metaJson).meta = .ok () :=
            hvalid
          cases freshness with
          | none =>
              rw [readStore_of_valid last hmarker hdecode hvalid]
              exact iff_of_true (agree_self (select_isOk last hok)) (by simp)
          | some check =>
              obtain ⟨haware, q, hbound, hsum⟩ := hcheck check rfl _ rfl
              have hdecided := isFresh_isOk_iff hvalid haware hbound
              have hrange : ThresholdInRange metaJson check.maxCycleSeconds :=
                thresholdInRange_of_sum hbound hsum
              have hone : (∀ c ∈ some check, ∀ publication ∈ some (behindMarker store pfx metaJson),
                  MetaSchema.validate py publication.meta = .ok () → HasUtc c.now) ↔
                  HasUtc check.now := by
                simp [hok]
              rw [hone]
              cases hfresh : isFresh metaJson check.now check.maxCycleSeconds with
              | ok fresh =>
                  exact iff_of_true (agree_of_isFresh last hmarker hdecode hvalid hfresh)
                    (hdecided.mp ⟨fresh, hfresh⟩).1
              | error e =>
                  refine iff_of_false
                    (not_agree_of_isFresh_error last hmarker hdecode hvalid hfresh _) fun hutc => ?_
                  obtain ⟨fresh, hok⟩ := hdecided.mpr ⟨hutc, hrange⟩
                  rw [hfresh] at hok
                  exact absurd hok (by simp)

/-! ## Examples -/

theorem storedCandidate_marker : StoredCandidate Reference.platform
    (Reference.markerOnly (Reference.marker 60)) "argo/data"
    (some (behindMarker (Reference.markerOnly (Reference.marker 60)) "argo/data"
      (Reference.marker 60))) :=
  .present (Reference.markerOnly_marker _) rfl

theorem usableCheck_marker {now : DateTime} (haware : now.utcoffset ≠ none) :
    UsableCheck (Reference.marker 60) ⟨.int 60, now⟩ := by
  refine ⟨haware, 60, .int 60 (by norm_num), fun pollInterval hinterval => ?_⟩
  obtain rfl := Json.int.inj hinterval
  exact lt_of_lt_of_le (by norm_num) (PyFloat.pow_le_floatLimit (k := 7) (by norm_num))

/-- At noon both paths report the candidate without files as incomplete. -/
theorem selectionPaths_agree_iff_noon :
    let store := Reference.markerOnly (Reference.marker 60)
    let candidate := some (behindMarker store "argo/data" (Reference.marker 60))
    let freshness := some (FreshnessCheck.mk (.int 60) Reference.noon)
    Agree (readStore Reference.platform store "argo/data" none freshness)
      (selectGenerationResult Reference.platform candidate none freshness) := by
  refine (selectionPaths_agree_iff storedCandidate_marker none ?_).mpr ?_
  · rintro _ ⟨⟩ _ ⟨⟩
    exact usableCheck_marker (by decide)
  · rintro _ ⟨⟩ _ ⟨⟩ _
    exact ⟨0, rfl, by decide, by decide⟩

/-- Without the two files one path reports an incomplete candidate, and the other one raises. -/
theorem selectionPaths_differ :
    let store := Reference.markerOnly (Reference.marker 60)
    let candidate := some (behindMarker store "argo/data" (Reference.marker 60))
    let check := FreshnessCheck.mk (.int 60) Reference.newYearOne
    StoredCandidate Reference.platform store "argo/data" candidate ∧
      UsableCheck (Reference.marker 60) check ∧
      readStore Reference.platform store "argo/data" none (some check) =
        raise .overflowError "date value out of range" ∧
      selectGenerationResult Reference.platform candidate none (some check) =
        .ok (retainedResult none .incomplete) ∧
      ¬ Agree (readStore Reference.platform store "argo/data" none (some check))
        (selectGenerationResult Reference.platform candidate none (some check)) := by
  have hraise : isFresh (Reference.marker 60) Reference.newYearOne (.int 60) =
      raise .overflowError "date value out of range" := rfl
  have hrejection : generationRejectionReason Reference.platform
      (some (behindMarker (Reference.markerOnly (Reference.marker 60)) "argo/data"
        (Reference.marker 60))) = .ok (some .incomplete) := by
    unfold generationRejectionReason behindMarker
    dsimp only
    rw [validMeta_eq_true_iff.mpr Reference.validate_marker, ok_bind, if_neg (by simp),
      Reference.markerOnly_workflows]
    rfl
  refine ⟨storedCandidate_marker, usableCheck_marker (by decide), ?_,
    select_of_rejected none _ hrejection,
    not_agree_of_isFresh_error none (Reference.markerOnly_marker _) rfl Reference.validate_marker
      hraise _⟩
  rw [readStore_of_valid_check none (Reference.markerOnly_marker _) rfl Reference.validate_marker,
    hraise]
  rfl

end ArgoExporter.Consumer
