/-
  ArgoExporter.Consumer.Selection

  When a read reports `FRESH`: the three bodies it got are one generation, the
  sidecar by its own account and the two files by their footers.
-/

import ArgoExporter.Consumer

namespace ArgoExporter.Consumer

open ArgoExporter.Py
open ArgoExporter.ParquetIo
open ArgoExporter.S3io

variable {Bytes : Type} (py : Platform Bytes)

/-- A valid sidecar and two files that all name generation `id`. -/
structure OneGeneration (candidate : Publication Bytes) (id : String) : Prop where
  valid : MetaSchema.validate py candidate.meta = .ok ()
  «meta» : metaGenerationId candidate.meta = some id
  workflows : footerGenerationId py candidate.workflows = some id
  runs : footerGenerationId py candidate.runs = some id
  start : ((candidate.meta.get "generated_at").orEmpty ++ "-").toList.isPrefixOf id.toList = true

variable {py}

theorem validMeta_eq_true_iff {metaJson : Json} :
    validMeta py metaJson = .ok true ↔ MetaSchema.validate py metaJson = .ok () := by
  unfold validMeta
  cases MetaSchema.validate py metaJson with
  | ok u => simp
  | error e =>
      dsimp only
      split_ifs <;> simp

theorem footerGenerationId_eq_some {data : Option Bytes} {id : String} :
    footerGenerationId py data = some id ↔
      ∃ bytes, data = some bytes ∧ readGenerationId py bytes = .ok (some id) := by
  cases data with
  | none => simp [footerGenerationId]
  | some bytes =>
      cases hread : readGenerationId py bytes with
      | ok found => simp [footerGenerationId, hread]
      | error e => simp [footerGenerationId, hread]

theorem metaGenerationId_eq_some {metaJson : Json} {id : String} :
    metaGenerationId metaJson = some id ↔ metaJson.get "generation_id" = .str id ∧ id ≠ "" := by
  unfold metaGenerationId
  split
  · rename_i found hfound
    rw [hfound]
    split_ifs with hempty
    · subst hempty
      simp only [Json.str.injEq, false_iff, not_and, not_not]
      exact Eq.symm
    · simp only [Option.some.injEq, Json.str.injEq]
      exact ⟨fun h => ⟨h, h ▸ hempty⟩, And.left⟩
  · rename_i hne
    simp only [reduceCtorEq, false_iff, not_and]
    exact fun h => absurd h (hne id)

/-- Nothing is held against a candidate exactly when it is one generation. -/
theorem rejectionReason_eq_none_iff (candidate : Publication Bytes) :
    generationRejectionReason py (some candidate) = .ok none ↔
      ∃ id, OneGeneration py candidate id := by
  constructor
  · intro h
    unfold generationRejectionReason at h
    obtain ⟨valid, hvalid, h⟩ := bind_eq_ok.mp h
    cases valid with
    | false => exact absurd h (by simp)
    | true =>
        simp only [not_true_eq_false, if_false] at h
        split_ifs at h with hmissing
        · exact absurd h (by simp)
        · unfold generationIds at h
          split at h
          · rename_i metaId workflowsId runsId hids
            obtain ⟨hmeta, hworkflows, hruns⟩ := Prod.mk.inj hids |>.imp_right Prod.mk.inj
            split_ifs at h with hsame hstart
            · obtain ⟨rfl, rfl⟩ := hsame
              exact ⟨metaId, validMeta_eq_true_iff.mp hvalid, hmeta, hworkflows, hruns, hstart⟩
            · exact absurd h (by simp)
            · exact absurd h (by simp)
          · exact absurd h (by simp)
  · rintro ⟨id, hone⟩
    obtain ⟨workflows, hworkflows, _⟩ := footerGenerationId_eq_some.mp hone.workflows
    obtain ⟨runs, hruns, _⟩ := footerGenerationId_eq_some.mp hone.runs
    have hpresent : ¬ (candidate.workflows.isNone = true ∨ candidate.runs.isNone = true) := by
      rw [hworkflows, hruns]
      simp
    have hids : generationIds py candidate = (some id, some id, some id) := by
      rw [generationIds, hone.meta, hone.workflows, hone.runs]
    unfold generationRejectionReason
    dsimp only
    rw [validMeta_eq_true_iff.mpr hone.valid, ok_bind, if_neg (by simp), if_neg hpresent, hids]
    dsimp only
    rw [if_neg (by simp), if_neg (not_not.mpr hone.start)]
    rfl

theorem retainedResult_not_fresh (last : Option (Publication Bytes))
    (reason : PublicationReason) : (retainedResult last reason).status ≠ .fresh := by
  cases last <;> simp [retainedResult]

/-- A result that falls back on the publication of an earlier read. -/
def Retains (last : Option (Publication Bytes)) (result : PublicationResult Bytes) : Prop :=
  result.publication = last ∧ result.status ≠ .fresh

/-- Without a freshness check the decision is about the generation alone. -/
theorem select_cases {candidate : Publication Bytes} {last : Option (Publication Bytes)}
    {result : PublicationResult Bytes}
    (h : selectGenerationResult py (some candidate) last none = .ok result) :
    Retains last result ∨
      result = ⟨some candidate, .fresh, none⟩ ∧ ∃ id, OneGeneration py candidate id := by
  unfold selectGenerationResult at h
  obtain ⟨rejection, hrejection, h⟩ := bind_eq_ok.mp h
  cases rejection with
  -- a rejected candidate leaves the last publication in place
  | some reason =>
      have hresult : retainedResult last reason = result := Except.ok.inj h
      subst hresult
      exact Or.inl ⟨rfl, retainedResult_not_fresh last reason⟩
  | none =>
      have hresult : (⟨some candidate, .fresh, none⟩ : PublicationResult Bytes) = result :=
        Except.ok.inj h
      exact Or.inr ⟨hresult.symm, (rejectionReason_eq_none_iff candidate).mp hrejection⟩

theorem select_of_oneGeneration {candidate : Publication Bytes} {id : String}
    (h : OneGeneration py candidate id) (last : Option (Publication Bytes)) :
    selectGenerationResult py (some candidate) last none = .ok ⟨some candidate, .fresh, none⟩ := by
  unfold selectGenerationResult
  rw [(rejectionReason_eq_none_iff candidate).mpr ⟨id, h⟩]
  rfl

theorem downloadBytes_eq_some {response : Except Exc Bytes} {data : Bytes}
    (h : downloadBytes response = .ok (some data)) : response = .ok data := by
  cases response with
  | ok body =>
      simp only [downloadBytes, Except.ok.injEq, Option.some.injEq] at h
      rw [h]
  | error e =>
      simp only [downloadBytes] at h
      split_ifs at h
      exact absurd h (by simp)

/-- The decision after the first GET either falls back or goes on with the decoded sidecar. -/
theorem checkMarker_cases {marker : Option Bytes} {last : Option (Publication Bytes)}
    {freshness : Option FreshnessCheck} {decision : PublicationResult Bytes ⊕ Json}
    (h : checkMarker py marker last freshness = .ok decision) :
    (∃ reason, decision = .inl (retainedResult last reason)) ∨
      ∃ data metaJson, marker = some data ∧ py.jsonLoads data = .ok metaJson ∧
        decision = .inr metaJson := by
  cases marker with
  | none =>
      rw [checkMarker, Except.ok.injEq] at h
      exact Or.inl ⟨.missing, h.symm⟩
  | some data =>
      cases hparse : parseMarker py data with
      | error e =>
          simp only [checkMarker, hparse] at h
          -- an error class the reader does not catch is raised, so this one is caught
          split_ifs at h
          rw [Except.ok.injEq] at h
          exact Or.inl ⟨.invalid, h.symm⟩
      | ok metaJson =>
          obtain ⟨decoded, hdecoded, hrest⟩ := bind_eq_ok.mp hparse
          obtain ⟨⟨⟩, _, hret⟩ := bind_eq_ok.mp hrest
          rw [pure_eq_ok, Except.ok.injEq] at hret
          subst hret
          cases freshness with
          | none =>
              simp only [checkMarker, hparse, Except.ok.injEq] at h
              exact Or.inr ⟨data, decoded, rfl, hdecoded, h.symm⟩
          | some check =>
              simp only [checkMarker, hparse] at h
              -- a marker that parses is still refused when it is too old
              obtain ⟨age, _, h⟩ := bind_eq_ok.mp h
              obtain ⟨threshold, _, h⟩ := bind_eq_ok.mp h
              split_ifs at h
              · exact Or.inr ⟨data, decoded, rfl, hdecoded, (Except.ok.inj h).symm⟩
              · exact Or.inl ⟨.stale, (Except.ok.inj h).symm⟩

/-- A read either falls back, or reports the three bodies it got, which are one generation. -/
theorem readGenerationResult_cases {getMeta getWorkflows getRuns : Except Exc Bytes}
    {last : Option (Publication Bytes)} {freshness : Option FreshnessCheck}
    {result : PublicationResult Bytes}
    (h : readGenerationResult py getMeta getWorkflows getRuns last freshness = .ok result) :
    Retains last result ∨
      ∃ marker workflows runs metaJson id, getMeta = .ok marker ∧ getWorkflows = .ok workflows ∧
        getRuns = .ok runs ∧ py.jsonLoads marker = .ok metaJson ∧
        result = ⟨some ⟨metaJson, some workflows, some runs⟩, .fresh, none⟩ ∧
        OneGeneration py ⟨metaJson, some workflows, some runs⟩ id := by
  unfold readGenerationResult at h
  obtain ⟨marker, hmarker, h⟩ := bind_eq_ok.mp h
  obtain ⟨decision, hdecision, h⟩ := bind_eq_ok.mp h
  rcases checkMarker_cases hdecision with ⟨reason, rfl⟩ | ⟨data, metaJson, rfl, hdata, rfl⟩
  -- the marker settles it, and no Parquet file is read
  · have hresult : retainedResult last reason = result := Except.ok.inj h
    subst hresult
    exact Or.inl ⟨rfl, retainedResult_not_fresh last reason⟩
  · dsimp only at h
    obtain ⟨workflows, hworkflows, h⟩ := bind_eq_ok.mp h
    obtain ⟨runs, hruns, h⟩ := bind_eq_ok.mp h
    rcases select_cases h with hretains | ⟨hresult, id, hone⟩
    · exact Or.inl hretains
    -- an accepted candidate has both files: its footers were read
    · obtain ⟨w, hw, _⟩ := footerGenerationId_eq_some.mp hone.workflows
      obtain ⟨r, hr, _⟩ := footerGenerationId_eq_some.mp hone.runs
      have hw' : workflows = some w := hw
      have hr' : runs = some r := hr
      subst hw' hr'
      exact Or.inr ⟨data, w, r, metaJson, id, downloadBytes_eq_some hmarker,
        downloadBytes_eq_some hworkflows, downloadBytes_eq_some hruns, hdata, hresult, hone⟩

/-- A read that gets one generation reports it, whatever it had before. -/
theorem read_of_oneGeneration {marker workflows runs : Bytes} {metaJson : Json} {id : String}
    (hmarker : py.jsonLoads marker = .ok metaJson)
    (h : OneGeneration py ⟨metaJson, some workflows, some runs⟩ id)
    (last : Option (Publication Bytes)) :
    readGenerationResult py (.ok marker) (.ok workflows) (.ok runs) last none =
      .ok ⟨some ⟨metaJson, some workflows, some runs⟩, .fresh, none⟩ := by
  have hparse : parseMarker py marker = .ok metaJson := by
    rw [parseMarker, hmarker, ok_bind, h.valid, ok_bind]
    rfl
  have hdecision : checkMarker py (some marker) last none = .ok (.inr metaJson) := by
    simp only [checkMarker, hparse]
  unfold readGenerationResult downloadBytes
  dsimp only
  rw [ok_bind, hdecision, ok_bind]
  dsimp only
  rw [ok_bind, ok_bind]
  exact select_of_oneGeneration h last

/-- A read that finds no marker falls back, whatever it finds otherwise. -/
theorem read_of_absent {store : ObjectStore Bytes} {k : String} (h : store k = none)
    (getWorkflows getRuns : Except Exc Bytes) (last : Option (Publication Bytes))
    (freshness : Option FreshnessCheck) :
    readGenerationResult py (getObject store .served k) getWorkflows getRuns last freshness =
      .ok (retainedResult last .missing) := by
  unfold readGenerationResult
  rw [downloadBytes_getObject, h]
  rfl

end ArgoExporter.Consumer
