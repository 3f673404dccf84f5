/-
  ArgoExporter.MetaSchema.Contract

  The contract of `meta.json` as its documentation states it, field by field,
  and that `validate` accepts the documents that keep it and no others
  (`validate_eq_ok_iff_contract`).
-/

import ArgoExporter.MetaSchema.Identity
import ArgoExporter.MetaSchema.Names
import ArgoExporter.MetaSchema.Rules
import ArgoExporter.Reference

namespace ArgoExporter.MetaSchema

open ArgoExporter.Lib
open ArgoExporter.Py

/-! ## The contract -/

/-- A string that is not empty. -/
def IsText (v : Json) : Prop := ∃ s, v = .str s ∧ s ≠ ""

/-- An integer, which a boolean is not. -/
def IsIntFrom (least : Int) (v : Json) : Prop := ∃ n, v = .int n ∧ least ≤ n

structure ClusterContract (cluster : Json) : Prop where
  fields : HasExactly cluster ["name", "ok", "workflows"]
  name : IsText (cluster.get "name")
  ok : ∃ b, cluster.get "ok" = .bool b
  workflows : IsIntFrom 0 (cluster.get "workflows")

/-- What a cluster adds to the count of the document. -/
def okCount (cluster : Json) : Int :=
  match cluster.get "ok", cluster.get "workflows" with
  | .bool true, .int n => n
  | _, _ => 0

/-- The clusters of a document whose `workflows` is `total`. -/
structure ClustersContract (clusters : List Json) (total : Json) : Prop where
  nonempty : clusters ≠ []
  each : ∀ c ∈ clusters, ClusterContract c
  names_distinct : clusters.Pairwise fun c d => c.get "name" ≠ d.get "name"
  unavailable : ∀ c ∈ clusters, c.get "ok" = .bool false → c.get "workflows" = .int 0
  total_eq : total = .int (clusters.map okCount).sum

/-- `generated_at` is a real UTC second, and `generation_id` extends it by twelve digits. -/
def IdentityContract (generatedAt generationId : Json) : Prop :=
  ∃ text hex, IsUtcSecond text ∧ IsSuffix hex ∧ generatedAt = .str text ∧
    generationId = .str (text ++ "-" ++ String.ofList hex)

structure Contract (metaJson : Json) : Prop where
  fields : HasExactly metaJson ["version", "generated_at", "generation_id",
    "poll_interval_seconds", "run_retention_days", "clusters", "workflows", "runs"]
  version : IsText (metaJson.get "version")
  identity : IdentityContract (metaJson.get "generated_at") (metaJson.get "generation_id")
  pollInterval : IsIntFrom 1 (metaJson.get "poll_interval_seconds")
  retention : IsIntFrom 1 (metaJson.get "run_retention_days")
  workflows : IsIntFrom 0 (metaJson.get "workflows")
  runs : IsIntFrom 0 (metaJson.get "runs")
  clusters : ∃ clusters, metaJson.get "clusters" = .arr clusters ∧
    ClustersContract clusters (metaJson.get "workflows")

/-! ## What the schema asks for -/

theorem one_le_length_iff (s : String) : 1 ≤ s.length ↔ s ≠ "" := by
  rw [Nat.one_le_iff_ne_zero, Ne, String.length_eq_zero_iff]

theorem accepts_text_iff {v : Json} : (Rule.string 1 none false).Accepts v ↔ IsText v := by
  rw [accepts_string_iff, IsText]
  simp [one_le_length_iff]

theorem accepts_cluster_iff {v : Json} : clusterSchema.Accepts v ↔ ClusterContract v := by
  rw [clusterSchema, accepts_object_iff (by rfl)]
  simp only [List.forall_mem_cons, accepts_text_iff, accepts_boolean_iff, accepts_integer_iff]
  exact ⟨fun ⟨hfields, hname, hok, hworkflows, _⟩ => ⟨hfields, hname, hok, hworkflows⟩,
    fun h => ⟨h.fields, h.name, h.ok, h.workflows, fun _ hp => absurd hp List.not_mem_nil⟩⟩

/-- The part of the contract that the schema states. -/
structure Conforms (metaJson : Json) : Prop where
  fields : HasExactly metaJson ["version", "generated_at", "generation_id",
    "poll_interval_seconds", "run_retention_days", "clusters", "workflows", "runs"]
  version : IsText (metaJson.get "version")
  generatedAt : ∃ s, metaJson.get "generated_at" = .str s ∧ s ≠ "" ∧ strptime s ≠ none
  generationId : ∃ s, metaJson.get "generation_id" = .str s ∧ s ≠ "" ∧
    generationIdPattern.fullmatch s = true
  pollInterval : IsIntFrom 1 (metaJson.get "poll_interval_seconds")
  retention : IsIntFrom 1 (metaJson.get "run_retention_days")
  workflows : IsIntFrom 0 (metaJson.get "workflows")
  runs : IsIntFrom 0 (metaJson.get "runs")
  clusters : ∃ clusters, metaJson.get "clusters" = .arr clusters ∧ clusters ≠ [] ∧
    ∀ c ∈ clusters, ClusterContract c

theorem accepts_metaSchema_iff {v : Json} : metaSchema.Accepts v ↔ Conforms v := by
  have hgeneratedAt (w : Json) : (Rule.string 1 none true).Accepts w ↔
      ∃ s, w = .str s ∧ s ≠ "" ∧ strptime s ≠ none := by
    rw [accepts_string_iff]
    simp [one_le_length_iff]
  have hgenerationId (w : Json) : (Rule.string 1 (some generationIdPattern) false).Accepts w ↔
      ∃ s, w = .str s ∧ s ≠ "" ∧ generationIdPattern.fullmatch s = true := by
    rw [accepts_string_iff]
    simp [one_le_length_iff]
  have hclusters (w : Json) : (Rule.array 1 clusterSchema).Accepts w ↔
      ∃ clusters, w = .arr clusters ∧ clusters ≠ [] ∧ ∀ c ∈ clusters, ClusterContract c := by
    rw [accepts_array_iff]
    simp only [accepts_cluster_iff, Nat.one_le_iff_ne_zero, Ne, List.length_eq_zero_iff]
  rw [metaSchema, accepts_object_iff (by rfl)]
  simp only [List.forall_mem_cons, accepts_text_iff, hgeneratedAt, hgenerationId,
    accepts_integer_iff, hclusters]
  exact ⟨fun ⟨hfields, hversion, hat, hid, hpoll, hretention, hclusters, hworkflows, hruns, _⟩ =>
      ⟨hfields, hversion, hat, hid, hpoll, hretention, hworkflows, hruns, hclusters⟩,
    fun h => ⟨h.fields, h.version, h.generatedAt, h.generationId, h.pollInterval, h.retention,
      h.clusters, h.workflows, h.runs, fun _ hp => absurd hp List.not_mem_nil⟩⟩

/-! ## What the rules across fields add -/

section AcrossFields

variable {Bytes : Type} (py : Platform Bytes)

theorem identityViolations_eq_nil_iff {metaJson : Json} {generatedAt generationId : String}
    (hgeneratedAt : metaJson.get "generated_at" = .str generatedAt)
    (hgenerationId : metaJson.get "generation_id" = .str generationId) :
    identityViolations py metaJson = [] ↔
      (generatedAt ++ "-").toList <+: generationId.toList := by
  unfold identityViolations
  rw [hgeneratedAt, hgenerationId]
  dsimp only
  rw [ite_eq_left_iff, imp_iff_or_not, List.isPrefixOf_iff_prefix]
  simp

theorem okCount_eq (cluster : Json) :
    okCount cluster = if okIs cluster true then (reported cluster).getD 0 else 0 := by
  unfold okCount okIs reported
  cases cluster.get "ok" with
  | bool ok =>
      cases ok with
      | true => cases cluster.get "workflows" <;> rfl
      | false => rfl
  | _ => rfl

theorem accounted_eq_sum (clusters : List Json) :
    accounted clusters = (clusters.map okCount).sum := by
  induction clusters with
  | nil => rfl
  | cons cluster clusters ih =>
      rw [List.map_cons, List.sum_cons, ← ih, okCount_eq, accounted, accounted, List.filter_cons]
      -- a cluster that is not ok is filtered out and counts for nothing
      split_ifs with hok
      · rw [List.filterMap_cons]
        cases reported cluster with
        | none => exact (Int.zero_add _).symm
        | some n => rw [List.sum_cons, Option.getD_some]
      · exact (Int.zero_add _).symm

theorem accountedViolations_eq_nil_iff (clusters : List Json) (total : Int) :
    accountedViolations clusters total = .ok [] ↔ total = (clusters.map okCount).sum := by
  rw [← accounted_eq_sum, accountedViolations]
  split_ifs with h
  · exact iff_of_true rfl h.symm
  · refine iff_of_false ?_ (Ne.symm h)
    cases strInt (accounted clusters) with
    | error e => simp
    | ok shown => simp

/-- The names of clusters that keep the contract are strings. -/
theorem names_of_contract {clusters : List Json} (h : ∀ c ∈ clusters, ClusterContract c) :
    ∃ names : List String,
      (clusters.filter Json.isDict).map (fun c => c.get "name") = names.map .str ∧
        (names.Nodup ↔ clusters.Pairwise fun c d => c.get "name" ≠ d.get "name") := by
  have hnames : clusters.map (fun c => c.get "name") =
      (clusters.map fun c => (c.get "name").orEmpty).map .str := by
    rw [List.map_map]
    apply List.map_congr_left
    intro c hc
    obtain ⟨s, hs, -⟩ := (h c hc).name
    rw [Function.comp_apply, hs, Json.orEmpty_str]
  refine ⟨clusters.map fun c => (c.get "name").orEmpty, ?_, ?_⟩
  · rw [List.filter_eq_self.mpr fun c hc => (h c hc).fields.1, hnames]
  · rw [← List.nodup_map_iff (f := Json.str) fun _ _ => Json.str.inj, ← hnames, List.Nodup,
      List.pairwise_map]

theorem unavailableWithRows_eq_nil_iff {cluster : Json} (h : ClusterContract cluster) (i : Nat) :
    unavailableWithRows py (cluster, i) = [] ↔
      (cluster.get "ok" = .bool false → cluster.get "workflows" = .int 0) := by
  obtain ⟨ok, hok⟩ := h.ok
  obtain ⟨n, hn, -⟩ := h.workflows
  unfold unavailableWithRows okIs reported
  dsimp only
  rw [hok, hn]
  simp

theorem clusterViolations_eq_nil_iff {metaJson : Json} {clusters : List Json} {total : Int}
    (hclusters : metaJson.get "clusters" = .arr clusters)
    (htotal : metaJson.get "workflows" = .int total)
    (heach : ∀ c ∈ clusters, ClusterContract c) :
    clusterViolations py metaJson = .ok [] ↔
      (clusters.Pairwise fun c d => c.get "name" ≠ d.get "name") ∧
        total = (clusters.map okCount).sum ∧
        ∀ c ∈ clusters, c.get "ok" = .bool false → c.get "workflows" = .int 0 := by
  obtain ⟨names, hnames, hnodup⟩ := names_of_contract heach
  have hunavailable : clusters.zipIdx.flatMap (unavailableWithRows py) = [] ↔
      ∀ c ∈ clusters, c.get "ok" = .bool false → c.get "workflows" = .int 0 := by
    rw [List.flatMap_eq_nil_iff]
    refine Iff.trans (forall₂_congr fun (e : Json × Nat) he => ?_) (forall_mem_zipIdx_iff clusters
      fun c => c.get "ok" = .bool false → c.get "workflows" = .int 0)
    exact unavailableWithRows_eq_nil_iff py (heach e.1 (List.fst_mem_of_mem_zipIdx he)) e.2
  rw [← hnodup, ← repeatedNames_str_eq_nil_iff, ← duplicatedNames_eq_nil_iff,
    ← accountedViolations_eq_nil_iff, ← hunavailable]
  unfold clusterViolations
  rw [hclusters, htotal]
  dsimp only
  rw [hnames]
  -- an exception is no empty report, so each part has to succeed
  cases hduplicated : duplicatedNames (names.map .str) with
  | error e => simp
  | ok duplicated =>
      cases hunaccounted : accountedViolations clusters total with
      | error e => simp
      | ok unaccounted =>
          cases duplicated with
          | nil => simp
          | cons n duplicated => simp

theorem crossFieldViolations_of_dict {metaJson : Json} (h : metaJson.isDict = true) :
    crossFieldViolations py metaJson =
      (do return identityViolations py metaJson ++ (← clusterViolations py metaJson)) := by
  obtain ⟨fields, rfl⟩ := (Json.isDict_iff metaJson).mp h
  rfl

theorem crossFieldViolations_of_not_dict {metaJson : Json} (h : metaJson.isDict = false) :
    crossFieldViolations py metaJson = .ok [] := by
  cases metaJson with
  | obj fields => exact absurd h (by simp [Json.isDict])
  | _ => rfl

theorem crossFieldViolations_eq_nil_iff {metaJson : Json} (h : metaJson.isDict = true) :
    crossFieldViolations py metaJson = .ok [] ↔
      identityViolations py metaJson = [] ∧ clusterViolations py metaJson = .ok [] := by
  rw [crossFieldViolations_of_dict py h]
  cases clusterViolations py metaJson with
  | error e => simp
  | ok violations => simp

end AcrossFields

/-! ## Acceptance -/

section Acceptance

variable {Bytes : Type} (py : Platform Bytes)

theorem IsUtcSecond.ne_empty {text : String} (h : IsUtcSecond text) : text ≠ "" := by
  obtain ⟨t, -, rfl⟩ := h
  intro hempty
  have hlist := congrArg String.toList hempty
  rw [toList_isoformatZ] at hlist
  simp at hlist

theorem extended_ne_empty (text : String) (hex : List Char) :
    text ++ "-" ++ String.ofList hex ≠ "" := by
  intro hempty
  have hlist := congrArg String.toList hempty
  rw [toList_extended] at hlist
  simp at hlist

/-- A document that keeps the contract is accepted. -/
theorem validate_of_contract {metaJson : Json} (h : Contract metaJson) :
    validate py metaJson = .ok () := by
  obtain ⟨text, hex, hutc, hhex, hgeneratedAt, hgenerationId⟩ := h.identity
  obtain ⟨hread, hpattern, hstarts⟩ := checks_of_identity hutc hhex
  obtain ⟨clusters, hclusters, hkept⟩ := h.clusters
  have hconforms : Conforms metaJson :=
    { fields := h.fields
      version := h.version
      generatedAt := ⟨text, hgeneratedAt, hutc.ne_empty, hread⟩
      generationId := ⟨_, hgenerationId, extended_ne_empty text hex, hpattern⟩
      pollInterval := h.pollInterval
      retention := h.retention
      workflows := h.workflows
      runs := h.runs
      clusters := ⟨clusters, hclusters, hkept.nonempty, hkept.each⟩ }
  rw [validate_eq_ok_iff, check_eq_nil_iff, accepts_metaSchema_iff,
    crossFieldViolations_eq_nil_iff py h.fields.1,
    identityViolations_eq_nil_iff py hgeneratedAt hgenerationId,
    clusterViolations_eq_nil_iff py hclusters hkept.total_eq hkept.each]
  exact ⟨hconforms, hstarts, hkept.names_distinct, rfl, hkept.unavailable⟩

theorem conforms_of_validate {metaJson : Json} (h : validate py metaJson = .ok ()) :
    Conforms metaJson := by
  rw [validate_eq_ok_iff, check_eq_nil_iff, accepts_metaSchema_iff] at h
  exact h.1

/-- A document that is accepted keeps the contract, if its id is ASCII. -/
theorem contract_of_validate {metaJson : Json}
    (hascii : ∀ s, metaJson.get "generation_id" = .str s → IsAscii s)
    (h : validate py metaJson = .ok ()) : Contract metaJson := by
  have hconforms := conforms_of_validate py h
  have hcross := ((validate_eq_ok_iff py metaJson).mp h).2
  -- the schema gives the types that the rules across fields look for
  obtain ⟨generatedAt, hgeneratedAt, -, hread⟩ := hconforms.generatedAt
  obtain ⟨generationId, hgenerationId, -, hpattern⟩ := hconforms.generationId
  obtain ⟨clusters, hclusters, hne, heach⟩ := hconforms.clusters
  obtain ⟨total, htotal, -⟩ := hconforms.workflows
  rw [crossFieldViolations_eq_nil_iff py hconforms.fields.1,
    identityViolations_eq_nil_iff py hgeneratedAt hgenerationId,
    clusterViolations_eq_nil_iff py hclusters htotal heach] at hcross
  obtain ⟨hstarts, hdistinct, hsum, hunavailable⟩ := hcross
  obtain ⟨hutc, hex, hhex, rfl⟩ :=
    identity_of_checks (hascii generationId hgenerationId) hread hpattern hstarts
  exact
    { fields := hconforms.fields
      version := hconforms.version
      identity := ⟨generatedAt, hex, hutc, hhex, hgeneratedAt, hgenerationId⟩
      pollInterval := hconforms.pollInterval
      retention := hconforms.retention
      workflows := hconforms.workflows
      runs := hconforms.runs
      clusters := ⟨clusters, hclusters, hne, heach, hdistinct, hunavailable, by rw [htotal, hsum]⟩ }

/-- `validate` accepts exactly the documents that keep the contract.  The timestamp starts an accepted
    id, so only the id is asked to be ASCII. -/
theorem validate_eq_ok_iff_contract {metaJson : Json}
    (hascii : ∀ s, metaJson.get "generation_id" = .str s → IsAscii s) :
    validate py metaJson = .ok () ↔ Contract metaJson :=
  ⟨contract_of_validate py hascii, validate_of_contract py⟩

/-- One cluster that answered and one that did not. -/
def twoClusters : Json :=
  .obj [("version", .str "1.4.0"), ("generated_at", .str "2026-08-01T12:00:00Z"),
    ("generation_id", .str "2026-08-01T12:00:00Z-0123456789ab"),
    ("poll_interval_seconds", .int 60), ("run_retention_days", .int 30),
    ("clusters", .arr
      [.obj [("name", .str "east"), ("ok", .bool true), ("workflows", .int 2)],
        .obj [("name", .str "west"), ("ok", .bool false), ("workflows", .int 0)]]),
    ("workflows", .int 2), ("runs", .int 7)]

/-- An accepted sidecar of two clusters meets the contract. -/
theorem contract_twoClusters : Contract twoClusters := by
  refine (validate_eq_ok_iff_contract Reference.platform fun s hs => ?_).mp rfl
  obtain rfl : "2026-08-01T12:00:00Z-0123456789ab" = s := Json.str.inj hs
  unfold IsAscii
  decide

end Acceptance

end ArgoExporter.MetaSchema
