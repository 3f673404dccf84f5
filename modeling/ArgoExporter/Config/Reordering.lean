/-
  ArgoExporter.Config.Reordering

  `load` on a permuted cluster list: it accepts the same entries, and the
  configuration differs in the order of its clusters only.
-/

import ArgoExporter.Config.Accepted
import Mathlib.Data.List.Perm.Basic

namespace ArgoExporter.Config

open ArgoExporter.Py

variable {Bytes : Type} {py : Platform Bytes}

/-! ## Entries -/

theorem optionalField_eq_ok {index : Nat} {item : Json} {field : String} {value : Option String}
    (h : optionalField py index item field = .ok value) (index' : Nat) :
    optionalField py index' item field = .ok value := by
  unfold optionalField at h ⊢
  cases hget : item.get field with
  | null => rw [hget] at h; exact h
  | str s => rw [hget] at h; exact h
  | _ => rw [hget] at h; exact absurd h (by simp)

/-- The position of an entry is in its error messages only. -/
theorem parseCluster_eq_ok {index : Nat} {item : Json} {cluster : Cluster}
    (h : parseCluster py index item = .ok cluster) (index' : Nat) :
    parseCluster py index' item = .ok cluster := by
  unfold parseCluster at h ⊢
  -- the index only appears in the error texts
  by_cases hdict : item.isDict = true
  · by_cases hname : item.has "name" = true
    · rw [if_neg (by simpa using hdict), if_neg (by simpa using hname)] at h ⊢
      cases hget : item.get "name" with
      | str name =>
          rw [hget] at h
          dsimp only at h ⊢
          by_cases hempty : name = ""
          · rw [if_pos hempty] at h
            exact absurd h (by simp)
          · rw [if_neg hempty] at h ⊢
            obtain ⟨baseUrl, hbase, h⟩ := bind_eq_ok.mp h
            obtain ⟨ns, hns, h⟩ := bind_eq_ok.mp h
            rw [optionalField_eq_ok hbase, ok_bind, optionalField_eq_ok hns, ok_bind]
            exact h
      | _ =>
          rw [hget] at h
          exact absurd h (by simp)
    · rw [if_neg (by simpa using hdict), if_pos hname] at h
      exact absurd h (by simp)
  · rw [if_pos hdict] at h
    exact absurd h (by simp)

/-- The entries parse one by one. -/
theorem parseClusterEntries_eq_ok_iff {index : Nat} {items : List Json}
    {clusters : List Cluster} :
    parseClusterEntries py index items = .ok clusters ↔
      List.Forall₂ (fun item cluster => parseCluster py 0 item = .ok cluster) items clusters := by
  induction items generalizing index clusters with
  | nil =>
      rw [parseClusterEntries, List.forall₂_nil_left_iff, Except.ok.injEq]
      exact eq_comm
  | cons item items ih =>
      constructor
      · intro h
        obtain ⟨cluster, hcluster, h⟩ := bind_eq_ok.mp h
        obtain ⟨rest, hrest, h⟩ := bind_eq_ok.mp h
        rw [pure_eq_ok, Except.ok.injEq] at h
        subst h
        exact List.Forall₂.cons (parseCluster_eq_ok hcluster 0) (ih.mp hrest)
      · intro h
        cases h with
        | cons hcluster hrest =>
            rw [parseClusterEntries, parseCluster_eq_ok hcluster index, ok_bind, ih.mpr hrest]
            rfl

/-- A permuted list of entries is accepted with its clusters permuted. -/
theorem parseClusters_perm {raw raw' : String} {items items' : List Json}
    {clusters : List Cluster} (h : parseClusters py raw = .ok clusters)
    (hraw : loadsConfig py raw = .ok (.arr items))
    (hraw' : loadsConfig py raw' = .ok (.arr items')) (hperm : items'.Perm items) :
    ∃ clusters', parseClusters py raw' = .ok clusters' ∧ clusters'.Perm clusters := by
  have haccepted := parseClusters_accepted h
  unfold parseClusters at h ⊢
  rw [hraw, ok_bind] at h
  rw [hraw', ok_bind]
  cases items with
  | nil => exact absurd h (by simp)
  | cons item items =>
      cases items' with
      | nil => exact absurd hperm.length_eq (by simp)
      | cons item' items' =>
          dsimp only at h ⊢
          obtain ⟨entries, hentries, h⟩ := bind_eq_ok.mp h
          obtain ⟨clusters', hperm', hclusters'⟩ := List.perm_comp_forall₂ hperm
            (parseClusterEntries_eq_ok_iff.mp hentries)
          rw [parseClusterEntries_eq_ok_iff.mpr hperm', ok_bind]
          split_ifs at h with hdup hlocal
          · exact absurd h (by simp)
          · exact absurd h (by simp)
          · rw [pure_eq_ok, Except.ok.injEq] at h
            subst h
            refine ⟨clusters', ?_, hclusters'⟩
            -- the two checks on the whole list do not depend on its order
            have hnodup : (clusters'.map Cluster.name).Nodup :=
              (hclusters'.map Cluster.name).nodup_iff.mpr haccepted.names_nodup
            have hdup' : ¬ hasDuplicates (clusters'.map Cluster.name) = true := by
              simpa [hasDuplicates] using hnodup
            have hlocal' : ¬ 1 < (clusters'.filter fun c => c.baseUrl.isNone).length := by
              rw [(hclusters'.filter _).length_eq]
              exact hlocal
            rw [if_neg hdup', if_neg hlocal']
            rfl

/-! ## Environments -/

/-- The second environment is the first one with the entries of `CLUSTERS_JSON` permuted. -/
structure ReordersClusters (py : Platform Bytes) (environ environ' : Environ) : Prop where
  others : ∀ name, name ≠ "CLUSTERS_JSON" → environ' name = environ name
  entries : ∃ raw raw' items items', requireVar environ "CLUSTERS_JSON" = .ok raw ∧
    requireVar environ' "CLUSTERS_JSON" = .ok raw' ∧ loadsConfig py raw = .ok (.arr items) ∧
    loadsConfig py raw' = .ok (.arr items') ∧ items'.Perm items

section Load

variable {environ environ' : Environ} (h : ReordersClusters py environ environ')

include h

theorem ReordersClusters.requireVar {name : String} (hne : name ≠ "CLUSTERS_JSON") :
    requireVar environ' name = requireVar environ name := by
  unfold Config.requireVar
  rw [h.others name hne]

theorem ReordersClusters.optionalVar {name default : String} (hne : name ≠ "CLUSTERS_JSON") :
    optionalVar environ' name default = optionalVar environ name default := by
  unfold Config.optionalVar
  rw [h.others name hne]

theorem ReordersClusters.positiveInt {name default : String} (hne : name ≠ "CLUSTERS_JSON") :
    positiveInt py environ' name default = positiveInt py environ name default := by
  unfold Config.positiveInt
  rw [h.optionalVar hne]

/-- A permuted cluster list gives the same configuration with its clusters permuted. -/
theorem load_perm {versionFile : String → Except Exc String} {cfg : Config}
    (hload : load py environ versionFile = .ok cfg) :
    ∃ clusters, load py environ' versionFile = .ok { cfg with clusters := clusters } ∧
      clusters.Perm cfg.clusters := by
  obtain ⟨raw, raw', items, items', hvar, hvar', hraw, hraw', hperm⟩ := h.entries
  -- every other variable is read as before
  have haddressing : s3AddressingStyleVar py environ' = s3AddressingStyleVar py environ := by
    unfold s3AddressingStyleVar
    rw [h.optionalVar (by decide)]
  have hlevel : logLevelVar py environ' = logLevelVar py environ := by
    unfold logLevelVar
    rw [h.optionalVar (by decide)]
  have hretention : runRetentionDaysVar py environ' = runRetentionDaysVar py environ :=
    h.positiveInt (by decide)
  unfold load at hload
  rw [hvar, ok_bind] at hload
  obtain ⟨clusters, hclusters, hload⟩ := bind_eq_ok.mp hload
  obtain ⟨clusters', hclusters', hpermuted⟩ := parseClusters_perm hclusters hraw hraw' hperm
  obtain ⟨endpointUrl, hendpoint, hload⟩ := bind_eq_ok.mp hload
  obtain ⟨accessKeyId, haccess, hload⟩ := bind_eq_ok.mp hload
  obtain ⟨secretAccessKey, hsecret, hload⟩ := bind_eq_ok.mp hload
  obtain ⟨bucket, hbucket, hload⟩ := bind_eq_ok.mp hload
  obtain ⟨addressingStyle, hstyle, hload⟩ := bind_eq_ok.mp hload
  obtain ⟨version, hversion, hload⟩ := bind_eq_ok.mp hload
  obtain ⟨pollInterval, hpoll, hload⟩ := bind_eq_ok.mp hload
  obtain ⟨retention, hretain, hload⟩ := bind_eq_ok.mp hload
  obtain ⟨httpTimeout, hhttp, hload⟩ := bind_eq_ok.mp hload
  obtain ⟨pageSize, hpage, hload⟩ := bind_eq_ok.mp hload
  obtain ⟨healthPort, hhealth, hload⟩ := bind_eq_ok.mp hload
  obtain ⟨level, hloglevel, hload⟩ := bind_eq_ok.mp hload
  rw [pure_eq_ok, Except.ok.injEq] at hload
  subst hload
  refine ⟨clusters', ?_, hpermuted⟩
  unfold load
  rw [hvar', ok_bind, hclusters', ok_bind, h.requireVar (by decide), hendpoint, ok_bind,
    h.requireVar (by decide), haccess, ok_bind, h.requireVar (by decide), hsecret, ok_bind,
    h.requireVar (by decide), hbucket, ok_bind, haddressing, hstyle, ok_bind]
  dsimp only
  rw [h.optionalVar (by decide), h.optionalVar (by decide), h.optionalVar (by decide), hversion,
    ok_bind, h.positiveInt (by decide), hpoll, ok_bind, hretention, hretain, ok_bind,
    h.positiveInt (by decide), hhttp, ok_bind, h.positiveInt (by decide), hpage, ok_bind,
    h.positiveInt (by decide), hhealth, ok_bind, hlevel, hloglevel, ok_bind,
    h.others "DEST_S3_PREFIX" (by decide)]
  rfl

end Load

end ArgoExporter.Config
