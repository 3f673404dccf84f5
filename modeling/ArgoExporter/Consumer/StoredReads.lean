/-
  ArgoExporter.Consumer.StoredReads

  What a read of a store returns, by what is stored: no marker, one that does
  not decode, one that violates the schema, or a valid one.  Two errors are
  not caught: the recursion limit of the decoder, and the range of the
  arithmetic that decides about freshness.
-/

import ArgoExporter.Consumer.Freshness
import ArgoExporter.Consumer.Selection

namespace ArgoExporter.Consumer

open ArgoExporter.Py
open ArgoExporter.S3io

variable {Bytes : Type} {py : Platform Bytes}

/-! ## Selection always decides -/

/-- The schema check raises only what the reader catches. -/
theorem caughtByMarker_of_validate {metaJson : Json} {e : Exc}
    (h : MetaSchema.validate py metaJson = .error e) : caughtByMarker e.cls = true := by
  rcases MetaSchema.validate_error py h with hcls | hcls | hcls
  · rw [hcls]
    rfl
  · rw [hcls]
    rfl
  · rw [hcls]
    rfl

theorem validMeta_of_error {metaJson : Json} {e : Exc}
    (h : MetaSchema.validate py metaJson = .error e) : validMeta py metaJson = .ok false := by
  unfold validMeta
  rw [h]
  rcases MetaSchema.validate_error py h with hcls | hcls | hcls
  · simp [hcls]
  · simp [hcls, ExcClass.isValueError]
  · simp [hcls]

theorem rejectionReason_of_invalid {candidate : Publication Bytes} {e : Exc}
    (h : MetaSchema.validate py candidate.meta = .error e) :
    generationRejectionReason py (some candidate) = .ok (some .invalid) := by
  unfold generationRejectionReason
  dsimp only
  rw [validMeta_of_error h]
  rfl

theorem rejectionReason_of_valid (candidate : Publication Bytes)
    (h : MetaSchema.validate py candidate.meta = .ok ()) :
    ∃ rejection, generationRejectionReason py (some candidate) = .ok rejection := by
  unfold generationRejectionReason
  dsimp only
  rw [validMeta_eq_true_iff.mpr h, ok_bind, if_neg (by simp)]
  -- missing files, missing ids, different ids, another second: each is a reason
  split_ifs
  · exact ⟨_, rfl⟩
  · split
    · split_ifs
      · exact ⟨_, rfl⟩
      · exact ⟨_, rfl⟩
      · exact ⟨_, rfl⟩
    · exact ⟨_, rfl⟩

section Select

variable {candidate : Publication Bytes} (last : Option (Publication Bytes))
  (freshness : Option FreshnessCheck)

theorem select_of_rejected {reason : PublicationReason}
    (h : generationRejectionReason py (some candidate) = .ok (some reason)) :
    selectGenerationResult py (some candidate) last freshness =
      .ok (retainedResult last reason) := by
  rw [selectGenerationResult, h]
  rfl

theorem select_of_accepted (h : generationRejectionReason py (some candidate) = .ok none) :
    selectGenerationResult py (some candidate) last none = .ok ⟨some candidate, .fresh, none⟩ := by
  rw [selectGenerationResult, h]
  rfl

theorem select_of_accepted_check (check : FreshnessCheck)
    (h : generationRejectionReason py (some candidate) = .ok none) :
    selectGenerationResult py (some candidate) last (some check) =
      (isFresh candidate.meta check.now check.maxCycleSeconds).map fun fresh =>
        if fresh then ⟨some candidate, .fresh, none⟩ else retainedResult last .stale := by
  rw [selectGenerationResult, h, ok_bind]
  dsimp only
  cases isFresh candidate.meta check.now check.maxCycleSeconds with
  | error e => rfl
  | ok fresh =>
      cases fresh with
      | true => rfl
      | false => rfl

end Select

/-! ## Reading by what is stored -/

/-- The publication of a store with this decoded marker: the two files are as they are stored. -/
def behindMarker (store : ObjectStore Bytes) (pfx : String) (metaJson : Json) :
    Publication Bytes :=
  ⟨metaJson, store (key pfx "workflows.parquet"), store (key pfx "runs.parquet")⟩

/-- The candidate of a store: none without a marker, otherwise the three stored objects. -/
inductive StoredCandidate (py : Platform Bytes) (store : ObjectStore Bytes) (pfx : String) :
    Option (Publication Bytes) → Prop where
  | absent (h : store (key pfx "meta.json") = none) : StoredCandidate py store pfx none
  | present {data : Bytes} {metaJson : Json} (hmarker : store (key pfx "meta.json") = some data)
      (hdecode : py.jsonLoads data = .ok metaJson) :
      StoredCandidate py store pfx (some (behindMarker store pfx metaJson))

section Reads

variable {store : ObjectStore Bytes} {pfx : String} {data : Bytes} {metaJson : Json}
  (last : Option (Publication Bytes))

theorem readStore_of_absent (h : store (key pfx "meta.json") = none)
    (freshness : Option FreshnessCheck) :
    readStore py store pfx last freshness = .ok (retainedResult last .missing) :=
  read_of_absent h _ _ last freshness

/-- A marker is checked first, and the files are read behind it. -/
theorem readStore_of_present (h : store (key pfx "meta.json") = some data)
    (freshness : Option FreshnessCheck) :
    readStore py store pfx last freshness = (do
      match ← checkMarker py (some data) last freshness with
      | .inl result => return result
      | .inr metaJson =>
          selectGenerationResult py (some (behindMarker store pfx metaJson)) last none) := by
  rw [readStore, readGenerationResult]
  simp only [downloadBytes_getObject, ok_bind]
  rw [h]
  rfl

/-- A marker that does not pass is retained or raised, by the class of its error. -/
theorem readStore_of_parse_error (h : store (key pfx "meta.json") = some data) {e : Exc}
    (hparse : parseMarker py data = .error e) (freshness : Option FreshnessCheck) :
    readStore py store pfx last freshness =
      if caughtByMarker e.cls then .ok (retainedResult last .invalid) else .error e := by
  rw [readStore_of_present last h]
  simp only [checkMarker, hparse]
  split_ifs
  · rfl
  · rfl

theorem readStore_of_undecodable (h : store (key pfx "meta.json") = some data) {e : Exc}
    (hdecode : py.jsonLoads data = .error e) (freshness : Option FreshnessCheck) :
    readStore py store pfx last freshness =
      if caughtByMarker e.cls then .ok (retainedResult last .invalid) else .error e := by
  apply readStore_of_parse_error last h
  rw [parseMarker, hdecode, error_bind]

theorem readStore_of_invalid (h : store (key pfx "meta.json") = some data)
    (hdecode : py.jsonLoads data = .ok metaJson) {e : Exc}
    (hinvalid : MetaSchema.validate py metaJson = .error e) (freshness : Option FreshnessCheck) :
    readStore py store pfx last freshness = .ok (retainedResult last .invalid) := by
  have hparse : parseMarker py data = .error e := by
    rw [parseMarker, hdecode, ok_bind, hinvalid, error_bind]
  rw [readStore_of_parse_error last h hparse, if_pos (caughtByMarker_of_validate hinvalid)]

theorem parseMarker_of_valid (hdecode : py.jsonLoads data = .ok metaJson)
    (hvalid : MetaSchema.validate py metaJson = .ok ()) : parseMarker py data = .ok metaJson := by
  rw [parseMarker, hdecode, ok_bind, hvalid, ok_bind, pure_eq_ok]

theorem readStore_of_valid (h : store (key pfx "meta.json") = some data)
    (hdecode : py.jsonLoads data = .ok metaJson)
    (hvalid : MetaSchema.validate py metaJson = .ok ()) :
    readStore py store pfx last none =
      selectGenerationResult py (some (behindMarker store pfx metaJson)) last none := by
  rw [readStore_of_present last h]
  simp only [checkMarker, parseMarker_of_valid hdecode hvalid, ok_bind]

/-- With a freshness check a valid marker is compared first. -/
theorem readStore_of_valid_check (h : store (key pfx "meta.json") = some data)
    (hdecode : py.jsonLoads data = .ok metaJson)
    (hvalid : MetaSchema.validate py metaJson = .ok ()) (check : FreshnessCheck) :
    readStore py store pfx last (some check) = (do
      if ← isFresh metaJson check.now check.maxCycleSeconds then
        selectGenerationResult py (some (behindMarker store pfx metaJson)) last none
      else return retainedResult last .stale) := by
  rw [readStore_of_present last h]
  simp only [checkMarker, parseMarker_of_valid hdecode hvalid, isFresh]
  cases freshnessAgeSeconds metaJson check.now with
  | error e => rfl
  | ok age =>
      cases freshnessThresholdSeconds metaJson check.maxCycleSeconds with
      | error e => rfl
      | ok threshold =>
          simp only [ok_bind, pure_eq_ok]
          cases age.lt threshold with
          | true => rfl
          | false => rfl

end Reads

end ArgoExporter.Consumer

namespace ArgoExporter.Reference

open ArgoExporter.Py
open ArgoExporter.S3io

/-- A valid marker with this poll interval. -/
def marker (pollInterval : Int) : Json :=
  .obj [("version", .str "1.4.0"), ("generated_at", .str "2026-08-01T12:00:00Z"),
    ("generation_id", .str "2026-08-01T12:00:00Z-0123456789ab"),
    ("poll_interval_seconds", .int pollInterval), ("run_retention_days", .int 30),
    ("clusters", .arr [.obj [("name", .str "east"), ("ok", .bool true), ("workflows", .int 2)]]),
    ("workflows", .int 2), ("runs", .int 7)]

/-- A store that holds a marker and no other object. -/
def markerOnly (metaJson : Json) : ObjectStore TaggedBytes :=
  fun k => if k = Consumer.key "argo/data" "meta.json" then some (.json metaJson) else none

theorem markerOnly_marker (metaJson : Json) :
    markerOnly metaJson (Consumer.key "argo/data" "meta.json") = some (.json metaJson) := if_pos rfl

theorem markerOnly_workflows (metaJson : Json) :
    markerOnly metaJson (Consumer.key "argo/data" "workflows.parquet") = none := by
  refine if_neg ?_
  unfold Consumer.key objectKey
  decide

theorem validate_marker : MetaSchema.validate platform (marker 60) = .ok () := rfl

/-- Noon of 2026-08-01 in UTC. -/
def noon : DateTime := ⟨⟨63921182400000000, by decide⟩, some 0⟩

/-- The start of year 1 an hour east of UTC, where it is still year 0. -/
def newYearOne : DateTime := ⟨⟨0, by decide⟩, some 3600000000⟩

end ArgoExporter.Reference
