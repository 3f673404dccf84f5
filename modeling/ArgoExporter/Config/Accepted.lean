/-
  ArgoExporter.Config.Accepted

  What a configuration that `load` accepts guarantees to the rest of the
  exporter: at least one cluster, distinct names that are not empty, a version
  text, a positive poll interval and a positive retention.
-/

import ArgoExporter.Config

namespace ArgoExporter

open ArgoExporter.Py

/-- The checks of a cluster list. -/
structure ClustersAccepted (clusters : List Cluster) : Prop where
  nonempty : clusters ≠ []
  names_nodup : (clusters.map Cluster.name).Nodup
  names_ne : ∀ c ∈ clusters, c.name ≠ ""

/-- The checks of a configuration that later stages rely on. -/
structure Config.Accepted (cfg : Config) : Prop where
  clusters : ClustersAccepted cfg.clusters
  version_ne : cfg.version ≠ ""
  pollInterval_pos : 0 < cfg.pollIntervalSeconds
  retention_pos : 0 < cfg.runRetentionDays

namespace Config

variable {Bytes : Type} {py : Platform Bytes}

/-! ## Cluster list -/

theorem parseCluster_name {index : Nat} {item : Json} {cluster : Cluster}
    (h : parseCluster py index item = .ok cluster) : cluster.name ≠ "" := by
  unfold parseCluster at h
  split_ifs at h
  · split at h
    · rename_i name _
      split_ifs at h with hname
      · exact absurd h (by simp)
      · obtain ⟨baseUrl, _, h⟩ := bind_eq_ok.mp h
        obtain ⟨ns, _, h⟩ := bind_eq_ok.mp h
        rw [pure_eq_ok, Except.ok.injEq] at h
        subst h
        exact hname
    · exact absurd h (by simp)
  · exact absurd h (by simp)
  · exact absurd h (by simp)

theorem parseClusterEntries_eq_ok {index : Nat} {items : List Json} {clusters : List Cluster}
    (h : parseClusterEntries py index items = .ok clusters) :
    clusters.length = items.length ∧ ∀ c ∈ clusters, c.name ≠ "" := by
  induction items generalizing index clusters with
  | nil =>
      rw [parseClusterEntries, Except.ok.injEq] at h
      subst h
      exact ⟨rfl, by simp⟩
  | cons item items ih =>
      obtain ⟨cluster, hcluster, h⟩ := bind_eq_ok.mp h
      obtain ⟨rest, hrest, h⟩ := bind_eq_ok.mp h
      rw [pure_eq_ok, Except.ok.injEq] at h
      subst h
      obtain ⟨hlength, hnames⟩ := ih hrest
      exact ⟨by rw [List.length_cons, List.length_cons, hlength],
        List.forall_mem_cons.mpr ⟨parseCluster_name hcluster, hnames⟩⟩

theorem parseClusters_accepted {raw : String} {clusters : List Cluster}
    (h : parseClusters py raw = .ok clusters) : ClustersAccepted clusters := by
  obtain ⟨value, _, h⟩ := bind_eq_ok.mp h
  split at h
  · exact absurd h (by simp)
  · rename_i items hne _
    obtain ⟨entries, hentries, h⟩ := bind_eq_ok.mp h
    obtain ⟨hlength, hnames⟩ := parseClusterEntries_eq_ok hentries
    dsimp only at h
    split_ifs at h with hdup hlocal
    · exact absurd h (by simp)
    · exact absurd h (by simp)
    · rw [pure_eq_ok, Except.ok.injEq] at h
      subst h
      refine ⟨?_, ?_, hnames⟩
      -- the list of entries was not empty
      · rintro rfl
        exact hne (by rw [List.length_eq_zero_iff.mp hlength.symm])
      · simpa [hasDuplicates] using hdup
  · exact absurd h (by simp)

/-- At most one cluster of an accepted list is the local one. -/
theorem parseClusters_oneLocal {raw : String} {clusters : List Cluster}
    (h : parseClusters py raw = .ok clusters) {c c' : Cluster} (hc : c ∈ clusters)
    (hc' : c' ∈ clusters) (hlocal : c.baseUrl = none) (hlocal' : c'.baseUrl = none) : c = c' := by
  obtain ⟨value, _, h⟩ := bind_eq_ok.mp h
  split at h
  · exact absurd h (by simp)
  · obtain ⟨entries, _, h⟩ := bind_eq_ok.mp h
    dsimp only at h
    split_ifs at h with hdup hmany
    · exact absurd h (by simp)
    · exact absurd h (by simp)
    · rw [pure_eq_ok, Except.ok.injEq] at h
      subst h
      have hmem : c ∈ entries.filter fun c => c.baseUrl.isNone :=
        List.mem_filter.mpr ⟨hc, by rw [hlocal]; rfl⟩
      have hmem' : c' ∈ entries.filter fun c => c.baseUrl.isNone :=
        List.mem_filter.mpr ⟨hc', by rw [hlocal']; rfl⟩
      -- two members of a list of length one
      obtain ⟨only, honly⟩ := List.length_eq_one_iff.mp
        (Nat.le_antisymm (Nat.not_lt.mp hmany) (List.length_pos_of_mem hmem))
      rw [honly, List.mem_singleton] at hmem hmem'
      rw [hmem, hmem']
  · exact absurd h (by simp)

/-! ## Scalars -/

theorem positiveInt_pos {environ : Environ} {name default : String} {value : Int}
    (h : positiveInt py environ name default = .ok value) : 0 < value := by
  unfold positiveInt at h
  dsimp only at h
  split at h
  · exact absurd h (by simp)
  · split_ifs at h with hle
    · exact absurd h (by simp)
    · rw [Except.ok.injEq] at h
      subst h
      omega

theorem readVersion_ne {versionFile : Except Exc String} {version : String}
    (h : readVersion versionFile = .ok version) : version ≠ "" := by
  unfold readVersion at h
  split at h
  · rw [Except.ok.injEq] at h
    subst h
    split_ifs with hempty
    · decide
    · exact hempty
  · split_ifs at h
    rw [Except.ok.injEq] at h
    subst h
    decide

/-! ## `load` -/

/-- Where the fields of a loaded configuration come from. -/
structure LoadedFrom (py : Platform Bytes) (environ : Environ)
    (versionFile : String → Except Exc String) (cfg : Config) : Prop where
  clusters : ∃ raw, parseClusters py raw = .ok cfg.clusters
  version : readVersion (versionFile (optionalVar environ "VERSION_FILE" "VERSION")) =
    .ok cfg.version
  pollInterval : positiveInt py environ "POLL_INTERVAL_SECONDS" "300" = .ok cfg.pollIntervalSeconds
  retention : runRetentionDaysVar py environ = .ok cfg.runRetentionDays
  destPrefix : cfg.destPrefix = normalizeS3Prefix ((environ "DEST_S3_PREFIX").getD "argo/data")

theorem loadedFrom_of_load {environ : Environ} {versionFile : String → Except Exc String}
    {cfg : Config} (h : load py environ versionFile = .ok cfg) :
    LoadedFrom py environ versionFile cfg := by
  unfold load at h
  obtain ⟨raw, _, h⟩ := bind_eq_ok.mp h
  obtain ⟨clusters, hclusters, h⟩ := bind_eq_ok.mp h
  obtain ⟨endpointUrl, _, h⟩ := bind_eq_ok.mp h
  obtain ⟨accessKeyId, _, h⟩ := bind_eq_ok.mp h
  obtain ⟨secretAccessKey, _, h⟩ := bind_eq_ok.mp h
  obtain ⟨bucket, _, h⟩ := bind_eq_ok.mp h
  obtain ⟨addressingStyle, _, h⟩ := bind_eq_ok.mp h
  obtain ⟨version, hversion, h⟩ := bind_eq_ok.mp h
  obtain ⟨pollInterval, hpoll, h⟩ := bind_eq_ok.mp h
  obtain ⟨retention, hretention, h⟩ := bind_eq_ok.mp h
  obtain ⟨httpTimeout, _, h⟩ := bind_eq_ok.mp h
  obtain ⟨pageSize, _, h⟩ := bind_eq_ok.mp h
  obtain ⟨healthPort, _, h⟩ := bind_eq_ok.mp h
  obtain ⟨level, _, h⟩ := bind_eq_ok.mp h
  rw [pure_eq_ok, Except.ok.injEq] at h
  subst h
  exact ⟨⟨raw, hclusters⟩, hversion, hpoll, hretention, rfl⟩

theorem load_accepted {environ : Environ} {versionFile : String → Except Exc String}
    {cfg : Config} (h : load py environ versionFile = .ok cfg) : cfg.Accepted := by
  have hloaded := loadedFrom_of_load h
  obtain ⟨raw, hclusters⟩ := hloaded.clusters
  exact ⟨parseClusters_accepted hclusters, readVersion_ne hloaded.version,
    positiveInt_pos hloaded.pollInterval, positiveInt_pos hloaded.retention⟩

end Config

end ArgoExporter
