/-
  ArgoExporter.MetaSchema.ErrorClasses

  Which exceptions leave `validate`.  The interpreter of the schema only
  collects messages, but the rules across fields run on documents that have
  failed it, and two of their steps raise exceptions of their own: building
  the sorted list of repeated names, and writing out a sum of too many digits.
  `MetaSchemaError` is the only exception exactly on the documents where
  neither happens (`oneErrorClass_iff`).
-/

import ArgoExporter.MetaSchema.Contract

namespace ArgoExporter.MetaSchema

open ArgoExporter.Lib
open ArgoExporter.Py

/-! ## Where the rules across fields are safe -/

/-- `c.get("name")` of every cluster entry that is an object. -/
def clusterNames (clusters : List Json) : List Json :=
  (clusters.filter Json.isDict).map fun c => c.get "name"

/-- Names that two or more entries share can be hashed and sorted, and a sum that is not the total
    can be written out. -/
structure SafeClusters (clusters : List Json) (total : Int) : Prop where
  hashable : ∀ n ∈ repeatedNames (clusterNames clusters), n.hashable = true
  sortable : Sortable (repeatedNames (clusterNames clusters))
  printable : total = (clusters.map okCount).sum ∨
    digitCount (clusters.map okCount).sum ≤ maxStrDigits

/-- Every list of clusters next to an integer total is safe. -/
def SafeAcrossFields (metaJson : Json) : Prop :=
  ∀ clusters total, metaJson.get "clusters" = .arr clusters →
    metaJson.get "workflows" = .int total → SafeClusters clusters total

theorem accountedViolations_isOk_iff (clusters : List Json) (total : Int) :
    (∃ violations, accountedViolations clusters total = .ok violations) ↔
      total = (clusters.map okCount).sum ∨
        digitCount (clusters.map okCount).sum ≤ maxStrDigits := by
  rw [accountedViolations, accounted_eq_sum]
  unfold strInt
  split_ifs with hsum hdigits
  · exact iff_of_true ⟨_, rfl⟩ (Or.inl hsum.symm)
  · exact iff_of_true ⟨_, rfl⟩ (Or.inr hdigits)
  · refine iff_of_false (by simp) ?_
    rintro (h | h)
    · exact hsum h.symm
    · exact hdigits h

theorem accountedViolations_error {clusters : List Json} {total : Int} {e : Exc}
    (h : accountedViolations clusters total = .error e) : e.cls = .valueError := by
  unfold accountedViolations strInt at h
  split_ifs at h
  · exact absurd h (by simp)
  · rw [raise_eq_error, error_bind, Except.error.injEq] at h
    rw [← h]

section

variable {Bytes : Type} (py : Platform Bytes)

theorem clusterViolations_of_clusters {metaJson : Json} {clusters : List Json} {total : Int}
    (hclusters : metaJson.get "clusters" = .arr clusters)
    (htotal : metaJson.get "workflows" = .int total) :
    clusterViolations py metaJson = do
      let duplicated ← duplicatedNames (clusterNames clusters)
      let unaccounted ← accountedViolations clusters total
      return (if duplicated.isEmpty then [] else
        [s!"meta.clusters has duplicate names {py.repr (.arr duplicated)}; " ++
          "one entry per configured cluster, no repeats"]) ++
        unaccounted ++ clusters.zipIdx.flatMap (unavailableWithRows py) := by
  unfold clusterViolations
  rw [hclusters, htotal]
  rfl

/-- Without a list of clusters or without an integer total there is nothing to check. -/
theorem clusterViolations_of_other {metaJson : Json}
    (h : ¬ ∃ clusters total, metaJson.get "clusters" = .arr clusters ∧
      metaJson.get "workflows" = .int total) : clusterViolations py metaJson = .ok [] := by
  unfold clusterViolations
  split
  · rename_i clusters total hclusters htotal
    exact absurd ⟨clusters, total, hclusters, htotal⟩ h
  · rfl

theorem clusterViolations_isOk_iff (metaJson : Json) :
    (∃ violations, clusterViolations py metaJson = .ok violations) ↔
      SafeAcrossFields metaJson := by
  by_cases h : ∃ clusters total, metaJson.get "clusters" = .arr clusters ∧
      metaJson.get "workflows" = .int total
  · obtain ⟨clusters, total, hclusters, htotal⟩ := h
    -- the two fields have one value each
    have hsafe : SafeAcrossFields metaJson ↔ SafeClusters clusters total := by
      refine ⟨fun h => h clusters total hclusters htotal, fun h cs t hcs ht => ?_⟩
      obtain rfl := Json.arr.inj (hclusters.symm.trans hcs)
      obtain rfl := Json.int.inj (htotal.symm.trans ht)
      exact h
    rw [hsafe, clusterViolations_of_clusters py hclusters htotal]
    simp only [bind_eq_ok, pure_eq_ok, Except.ok.injEq]
    constructor
    · rintro ⟨_, duplicated, hduplicated, unaccounted, hunaccounted, -⟩
      obtain ⟨hhash, hsort⟩ := (duplicatedNames_isOk_iff _).mp ⟨duplicated, hduplicated⟩
      exact ⟨hhash, hsort, (accountedViolations_isOk_iff _ _).mp ⟨unaccounted, hunaccounted⟩⟩
    · rintro ⟨hhash, hsort, hprint⟩
      obtain ⟨duplicated, hduplicated⟩ := (duplicatedNames_isOk_iff _).mpr ⟨hhash, hsort⟩
      obtain ⟨unaccounted, hunaccounted⟩ := (accountedViolations_isOk_iff _ _).mpr hprint
      exact ⟨_, duplicated, hduplicated, unaccounted, hunaccounted, rfl⟩
  · rw [clusterViolations_of_other py h]
    refine iff_of_true ⟨[], rfl⟩ fun clusters total hclusters htotal => ?_
    exact absurd ⟨clusters, total, hclusters, htotal⟩ h

/-- An exception of the rules across fields is a `TypeError` or a `ValueError`. -/
theorem clusterViolations_error {metaJson : Json} {e : Exc}
    (he : clusterViolations py metaJson = .error e) : e.cls = .typeError ∨ e.cls = .valueError := by
  by_cases h : ∃ clusters total, metaJson.get "clusters" = .arr clusters ∧
      metaJson.get "workflows" = .int total
  · obtain ⟨clusters, total, hclusters, htotal⟩ := h
    rw [clusterViolations_of_clusters py hclusters htotal, bind_eq_error] at he
    rcases he with he | ⟨duplicated, -, he⟩
    · exact Or.inl (duplicatedNames_error he)
    · rcases bind_eq_error.mp he with he | ⟨unaccounted, -, he⟩
      · exact Or.inr (accountedViolations_error he)
      · exact absurd he (by simp)
  · rw [clusterViolations_of_other py h] at he
    exact absurd he (by simp)

theorem safeAcrossFields_of_not_dict {metaJson : Json} (h : metaJson.isDict = false) :
    SafeAcrossFields metaJson := by
  intro clusters total hclusters _
  have hnull : metaJson.get "clusters" = .null := by
    cases metaJson with
    | obj fields => exact absurd h (by simp [Json.isDict])
    | _ => rfl
  rw [hnull] at hclusters
  exact absurd hclusters (by simp)

theorem crossFieldViolations_isOk_iff (metaJson : Json) :
    (∃ violations, crossFieldViolations py metaJson = .ok violations) ↔
      SafeAcrossFields metaJson := by
  cases hdict : metaJson.isDict with
  | false =>
      rw [crossFieldViolations_of_not_dict py hdict]
      exact iff_of_true ⟨[], rfl⟩ (safeAcrossFields_of_not_dict hdict)
  | true =>
      rw [← clusterViolations_isOk_iff py, crossFieldViolations_of_dict py hdict]
      simp only [bind_eq_ok, pure_eq_ok, Except.ok.injEq]
      exact ⟨fun ⟨_, violations, hok, _⟩ => ⟨violations, hok⟩,
        fun ⟨violations, hok⟩ => ⟨_, violations, hok, rfl⟩⟩

theorem crossFieldViolations_error {metaJson : Json} {e : Exc}
    (he : crossFieldViolations py metaJson = .error e) :
    e.cls = .typeError ∨ e.cls = .valueError := by
  cases hdict : metaJson.isDict with
  | false =>
      rw [crossFieldViolations_of_not_dict py hdict] at he
      exact absurd he (by simp)
  | true =>
      rw [crossFieldViolations_of_dict py hdict, bind_eq_error] at he
      rcases he with he | ⟨violations, -, he⟩
      · exact clusterViolations_error py he
      · exact absurd he (by simp)

/-! ## The exceptions of `validate` -/

/-- What `validate` raises. -/
theorem validate_error {metaJson : Json} {e : Exc} (h : validate py metaJson = .error e) :
    e.cls = .typeError ∨ e.cls = .valueError ∨ e.cls = .metaSchemaError := by
  unfold validate at h
  dsimp only at h
  rcases bind_eq_error.mp h with hcross | ⟨violations, -, hrest⟩
  · rcases crossFieldViolations_error py hcross with hcls | hcls
    · exact Or.inl hcls
    · exact Or.inr (Or.inl hcls)
  · split_ifs at hrest
    · exact absurd hrest (by simp)
    · rw [raise_eq_error, Except.error.injEq] at hrest
      rw [← hrest]
      exact Or.inr (Or.inr rfl)

/-- `validate` returns or raises `MetaSchemaError`. -/
def OneErrorClass (metaJson : Json) : Prop :=
  validate py metaJson = .ok () ∨ ∃ e, validate py metaJson = .error e ∧ e.cls = .metaSchemaError

/-- `MetaSchemaError` is the only exception exactly where the rules across fields are safe. -/
theorem oneErrorClass_iff (metaJson : Json) :
    OneErrorClass py metaJson ↔ SafeAcrossFields metaJson := by
  rw [← crossFieldViolations_isOk_iff py, OneErrorClass, validate]
  cases hcross : crossFieldViolations py metaJson with
  | error e =>
      -- an exception of the rules across fields is never a `MetaSchemaError`
      have hcls : e.cls ≠ .metaSchemaError := by
        rcases crossFieldViolations_error py hcross with h | h
        · rw [h]
          decide
        · rw [h]
          decide
      refine iff_of_false ?_ (by simp)
      rintro (h | ⟨e', h, hcls'⟩)
      · exact absurd h (by simp)
      · rw [error_bind, Except.error.injEq] at h
        exact hcls (h ▸ hcls')
  | ok violations =>
      refine iff_of_true ?_ ⟨violations, rfl⟩
      rw [ok_bind]
      dsimp only
      -- all violations are collected: none, or one exception for all
      split_ifs
      · exact Or.inl rfl
      · exact Or.inr ⟨_, rfl, rfl⟩

/-- Two entries share a name, and the name is a list. -/
def sharedListName : Json :=
  .obj [("clusters", .arr [.obj [("name", .arr [])], .obj [("name", .arr [])]]),
    ("workflows", .int 0)]

/-- Two clusters named by equal lists are hashed before their names are checked. -/
theorem sharedListName_typeError : ¬ OneErrorClass Reference.platform sharedListName := by
  have hraise : validate Reference.platform sharedListName =
      raise .typeError "unhashable type: 'list'" := rfl
  rw [OneErrorClass, hraise]
  simp

end

end ArgoExporter.MetaSchema
