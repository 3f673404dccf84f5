/-
  ArgoExporter.Consumer.ClusterView

  What a consumer shows of one cluster, and when two stores show the same of
  it.  The files may differ in the rows of other clusters and the sidecars in
  their entries; the ids, the times and the cluster's own data may not.
-/

import ArgoExporter.Consumer.Answers
import ArgoExporter.Consumer.StoredReads

namespace ArgoExporter.Consumer

open ArgoExporter.Py
open ArgoExporter.S3io
open ArgoExporter.ParquetIo

variable {Bytes : Type} (py : Platform Bytes)

/-! ## The view of a cluster -/

/-- The records of one cluster. -/
def ownRecords (cluster : String) (records : List Record) : List Record :=
  records.filter fun record => isOneOf [cluster] (Record.get record "cluster")

/-- The entries of a sidecar about one cluster. -/
def ownEntries (cluster : String) (metaJson : Json) : List Json :=
  match metaJson.get "clusters" with
  | .arr entries => entries.filter fun entry => isOneOf [cluster] (entry.get "name")
  | _ => []

/-- What a publication shows of one cluster. -/
structure Shown where
  generationId : Option String
  generatedAt : Json
  availability : Except Exc (List (String × Bool))
  current : Except Exc (List Record)
  history : Except Exc (List Record)

def shownOf (cluster : String) (publication : Publication Bytes) : Shown where
  generationId := metaGenerationId publication.meta
  generatedAt := publication.meta.get "generated_at"
  availability := (clusterAvailability py publication).map
    (List.filter fun entry => isOneOf [cluster] (.str entry.1))
  current := (currentSnapshotRows py publication).map (ownRecords cluster)
  history := (historicalRunRows py publication).map (ownRecords cluster)

/-- The answer of a read, as far as one cluster goes. -/
structure ClusterView where
  status : PublicationStatus
  reason : Option PublicationReason
  shown : Option Shown

def viewOf (cluster : String) (result : PublicationResult Bytes) : ClusterView :=
  ⟨result.status, result.reason, result.publication.map (shownOf py cluster)⟩

/-- A read of a store, as far as one cluster goes. -/
def clusterView (store : ObjectStore Bytes) (pfx cluster : String)
    (last : Option (Publication Bytes)) (freshness : Option FreshnessCheck) :
    Except Exc ClusterView :=
  (readStore py store pfx last freshness).map (viewOf py cluster)

/-! ## Stores that agree on some clusters -/

section Agreement

variable (watched : Set String)

/-- Two sidecars of one generation with the same entries about the watched clusters. -/
structure AlikeSidecars (metaJson metaJson' : Json) : Prop where
  valid : MetaSchema.validate py metaJson = .ok ()
  valid' : MetaSchema.validate py metaJson' = .ok ()
  id : metaJson.get "generation_id" = metaJson'.get "generation_id"
  time : metaJson.get "generated_at" = metaJson'.get "generated_at"
  interval : metaJson.get "poll_interval_seconds" = metaJson'.get "poll_interval_seconds"
  entries : ∀ cluster ∈ watched, ownEntries cluster metaJson = ownEntries cluster metaJson'

/-- Two files of one generation with the same records of the watched clusters. -/
structure AlikeFiles (schema : Schema) (data data' : Bytes) : Prop where
  id : readGenerationId py data = readGenerationId py data'
  records : ∃ table table', parquetBytesToTable py (some data) schema = .ok table ∧
    parquetBytesToTable py (some data') schema = .ok table' ∧
    ∀ cluster ∈ watched, ownRecords cluster table.toPylist = ownRecords cluster table'.toPylist

/-- Two markers that decode to such sidecars. -/
def AlikeMarkers (data data' : Bytes) : Prop :=
  ∃ metaJson metaJson', py.jsonLoads data = .ok metaJson ∧ py.jsonLoads data' = .ok metaJson' ∧
    AlikeSidecars py watched metaJson metaJson'

/-- One object, or two that are related. -/
def Akin (related : Bytes → Bytes → Prop) (object object' : Option Bytes) : Prop :=
  object = object' ∨ ∃ data data', object = some data ∧ object' = some data' ∧ related data data'

/-- What two objects of this name have in common. -/
structure AlikeObjects (name : String) (data data' : Bytes) : Prop where
  marker : name = "meta.json" → AlikeMarkers py watched data data'
  workflows : name = "workflows.parquet" → AlikeFiles py watched workflowsSchema data data'
  runs : name = "runs.parquet" → AlikeFiles py watched runsSchema data data'

/-- Two stores that show the same of the watched clusters. -/
def AlikeStores (pfx : String) (store store' : ObjectStore Bytes) : Prop :=
  ∀ name, Akin (AlikeObjects py watched name) (store (key pfx name)) (store' (key pfx name))

end Agreement

variable {py} {watched : Set String}

theorem Akin.imp {related related' : Bytes → Bytes → Prop}
    (himp : ∀ data data', related data data' → related' data data') {object object' : Option Bytes}
    (h : Akin related object object') : Akin related' object object' := by
  rcases h with rfl | ⟨data, data', hdata, hdata', hrelated⟩
  · exact Or.inl rfl
  · exact Or.inr ⟨data, data', hdata, hdata', himp data data' hrelated⟩

theorem Akin.isNone {related : Bytes → Bytes → Prop} {object object' : Option Bytes}
    (h : Akin related object object') : object.isNone = object'.isNone := by
  rcases h with rfl | ⟨_, _, rfl, rfl, _⟩ <;> rfl

theorem Akin.symm {related : Bytes → Bytes → Prop}
    (hsymm : ∀ data data', related data data' → related data' data)
    {object object' : Option Bytes} (h : Akin related object object') :
    Akin related object' object := by
  rcases h with rfl | ⟨data, data', hdata, hdata', hrelated⟩
  · exact Or.inl rfl
  · exact Or.inr ⟨data', data, hdata', hdata, hsymm data data' hrelated⟩

theorem AlikeSidecars.symm {metaJson metaJson' : Json}
    (h : AlikeSidecars py watched metaJson metaJson') : AlikeSidecars py watched metaJson' metaJson :=
  ⟨h.valid', h.valid, h.id.symm, h.time.symm, h.interval.symm,
    fun cluster hcluster => (h.entries cluster hcluster).symm⟩

theorem AlikeFiles.symm {schema : Schema} {data data' : Bytes}
    (h : AlikeFiles py watched schema data data') : AlikeFiles py watched schema data' data := by
  obtain ⟨hid, table, table', htable, htable', hrecords⟩ := h
  exact ⟨hid.symm, table', table, htable', htable,
    fun cluster hcluster => (hrecords cluster hcluster).symm⟩

theorem AlikeStores.symm {pfx : String} {store store' : ObjectStore Bytes}
    (h : AlikeStores py watched pfx store store') : AlikeStores py watched pfx store' store := by
  refine fun name => (h name).symm fun data data' halike => ⟨fun hname => ?_, fun hname => ?_,
    fun hname => ?_⟩
  · obtain ⟨metaJson, metaJson', hloads, hloads', hmeta⟩ := halike.marker hname
    exact ⟨metaJson', metaJson, hloads', hloads, hmeta.symm⟩
  · exact (halike.workflows hname).symm
  · exact (halike.runs hname).symm

theorem AlikeStores.refl (pfx : String) (store : ObjectStore Bytes) :
    AlikeStores py watched pfx store store := fun _ => Or.inl rfl

/-! ## One publication each -/

section Files

variable {schema : Schema} {object object' : Option Bytes}
  (h : Akin (AlikeFiles py watched schema) object object')

include h

theorem Akin.footer : footerGenerationId py object = footerGenerationId py object' := by
  rcases h with rfl | ⟨data, data', rfl, rfl, hfiles⟩
  · rfl
  · rw [footerGenerationId, footerGenerationId, hfiles.id]

/-- A readable object agrees with a readable one. -/
theorem Akin.decode {table : Table} (hdecode : parquetBytesToTable py object schema = .ok table) :
    ∃ table', parquetBytesToTable py object' schema = .ok table' ∧
      ∀ cluster ∈ watched,
        ownRecords cluster table.toPylist = ownRecords cluster table'.toPylist := by
  rcases h with rfl | ⟨data, data', rfl, rfl, hfiles⟩
  · exact ⟨table, hdecode, fun _ _ => rfl⟩
  · obtain ⟨decoded, table', htable, htable', hrecords⟩ := hfiles.records
    rw [hdecode, Except.ok.injEq] at htable
    subst htable
    exact ⟨table', htable', hrecords⟩

theorem Akin.records {cluster : String} (hcluster : cluster ∈ watched) :
    (parquetBytesToTable py object schema).map (fun table => ownRecords cluster table.toPylist) =
      (parquetBytesToTable py object' schema).map
        fun table => ownRecords cluster table.toPylist := by
  rcases h with rfl | ⟨data, data', rfl, rfl, hfiles⟩
  · rfl
  · obtain ⟨table, table', htable, htable', hrecords⟩ := hfiles.records
    rw [htable, htable']
    exact congrArg Except.ok (hrecords cluster hcluster)

end Files

/-- A name among one. -/
theorem isOneOf_singleton {cluster : String} {cell : Json} :
    isOneOf [cluster] cell = true ↔ cell = .str cluster := by
  cases cell with
  | str name => simp [isOneOf]
  | _ => simp [isOneOf]

theorem ownRecords_filter (cluster : String) (keep : Record → Bool) (records : List Record) :
    ownRecords cluster (records.filter keep) = (ownRecords cluster records).filter keep := by
  rw [ownRecords, ownRecords, List.filter_filter, List.filter_filter]
  exact List.filter_congr fun record _ => Bool.and_comm _ _

/-- The records that are kept of a cluster depend on its own records only. -/
theorem own_current_eq {decoded decoded' : Except Exc Table} {cluster : String}
    (h : decoded.map (fun table => ownRecords cluster table.toPylist) =
      decoded'.map fun table => ownRecords cluster table.toPylist) {keep keep' : Record → Bool}
    (hkeep : ∀ record, isOneOf [cluster] (Record.get record "cluster") = true →
      keep record = keep' record) :
    (decoded.map fun table => table.toPylist.filter keep).map (ownRecords cluster) =
      (decoded'.map fun table => table.toPylist.filter keep').map (ownRecords cluster) := by
  have hsplit : ∀ (decoded : Except Exc Table) (keep : Record → Bool),
      (decoded.map fun table => table.toPylist.filter keep).map (ownRecords cluster) =
        (decoded.map fun table => ownRecords cluster table.toPylist).map (List.filter keep) := by
    intro decoded keep
    cases decoded with
    | error e => rfl
    | ok table => exact congrArg Except.ok (ownRecords_filter cluster keep table.toPylist)
  rw [hsplit, hsplit, h]
  cases decoded' with
  | error e => rfl
  | ok table =>
      exact congrArg Except.ok
        (List.filter_congr fun record hrecord => hkeep record (List.mem_filter.mp hrecord).2)

theorem own_history (publication : Publication Bytes) (cluster : String) :
    (historicalRunRows py publication).map (ownRecords cluster) =
      (parquetBytesToTable py publication.runs runsSchema).map
        fun table => ownRecords cluster table.toPylist := by
  unfold historicalRunRows
  cases parquetBytesToTable py publication.runs runsSchema with
  | error e => rfl
  | ok table => rfl

/-- The availability of a cluster is in the entries about it. -/
theorem own_availability {clusters : List Json} {availability : List (String × Bool)}
    (h : (availability.map fun entry => (Json.str entry.1, Json.bool entry.2)) =
      clusters.map fun cluster => (cluster.get "name", cluster.get "ok")) (cluster : String) :
    ((availability.filter fun entry => isOneOf [cluster] (.str entry.1)).map fun entry =>
        (Json.str entry.1, Json.bool entry.2)) =
      (clusters.filter fun entry => isOneOf [cluster] (entry.get "name")).map fun entry =>
        (entry.get "name", entry.get "ok") := by
  have hfilter := congrArg (List.filter fun pair => isOneOf [cluster] pair.1) h
  rw [List.filter_map, List.filter_map] at hfilter
  exact hfilter

/-- Whether the sidecar vouches for a record of a cluster is in the entries about the cluster. -/
theorem vouched_iff_own {clusters : List Json} {cluster : String} {record : Record}
    (hown : isOneOf [cluster] (Record.get record "cluster") = true) :
    Vouched clusters record ↔
      ∃ entry ∈ clusters.filter fun entry => isOneOf [cluster] (entry.get "name"),
        entry.get "ok" = .bool true := by
  rw [isOneOf_singleton] at hown
  constructor
  · rintro ⟨entry, hentry, hok, hname⟩
    refine ⟨entry, List.mem_filter.mpr ⟨hentry, ?_⟩, hok⟩
    rw [isOneOf_singleton, ← hname, hown]
  · rintro ⟨entry, hentry, hok⟩
    obtain ⟨hmem, hname⟩ := List.mem_filter.mp hentry
    exact ⟨entry, hmem, hok, by rw [hown, isOneOf_singleton.mp hname]⟩

/-- Two accepted publications of alike objects show the same of a watched cluster. -/
theorem shownOf_eq {publication publication' : Publication Bytes} {id id' : String}
    (hone : OneGeneration py publication id) (hone' : OneGeneration py publication' id')
    (hmeta : AlikeSidecars py watched publication.meta publication'.meta)
    (hworkflows : Akin (AlikeFiles py watched workflowsSchema) publication.workflows
      publication'.workflows)
    (hruns : Akin (AlikeFiles py watched runsSchema) publication.runs publication'.runs)
    {cluster : String} (hcluster : cluster ∈ watched) :
    shownOf py cluster publication = shownOf py cluster publication' := by
  obtain ⟨clusters, availability, hclusters, havailable, hentries, _, keep, hkeep, hcurrent⟩ :=
    (showable_of_oneGeneration hone).current
  obtain ⟨clusters', availability', hclusters', havailable', hentries', _, keep', hkeep',
    hcurrent'⟩ := (showable_of_oneGeneration hone').current
  have hown : (clusters.filter fun entry => isOneOf [cluster] (entry.get "name")) =
      clusters'.filter fun entry => isOneOf [cluster] (entry.get "name") := by
    have hsame := hmeta.entries cluster hcluster
    rw [ownEntries, ownEntries, hclusters, hclusters'] at hsame
    exact hsame
  have hid : metaGenerationId publication.meta = metaGenerationId publication'.meta := by
    rw [metaGenerationId, metaGenerationId, hmeta.id]
  have havailability : (clusterAvailability py publication).map
        (List.filter fun entry => isOneOf [cluster] (.str entry.1)) =
      (clusterAvailability py publication').map
        (List.filter fun entry => isOneOf [cluster] (.str entry.1)) := by
    rw [havailable, havailable']
    refine congrArg Except.ok (List.map_injective_iff.mpr ?_ ((own_availability hentries cluster).trans
      ((congrArg _ hown).trans (own_availability hentries' cluster).symm)))
    intro entry entry' heq
    obtain ⟨hname, hok⟩ := Prod.mk.inj heq
    exact Prod.ext (Json.str.inj hname) (Json.bool.inj hok)
  -- both keep the same records of the cluster
  have hkept : ∀ record, isOneOf [cluster] (Record.get record "cluster") = true →
      keep record = keep' record := by
    intro record hrecord
    rw [Bool.eq_iff_iff, hkeep, hkeep', vouched_iff_own hrecord, vouched_iff_own hrecord, hown]
  have hrecords : (currentSnapshotRows py publication).map (ownRecords cluster) =
      (currentSnapshotRows py publication').map (ownRecords cluster) := by
    rw [hcurrent, hcurrent']
    exact own_current_eq (hworkflows.records hcluster) hkept
  have hhistory : (historicalRunRows py publication).map (ownRecords cluster) =
      (historicalRunRows py publication').map (ownRecords cluster) := by
    rw [own_history, own_history]
    exact hruns.records hcluster
  rw [shownOf, shownOf, hid, hmeta.time, havailability, hrecords, hhistory]

/-! ## One read each -/

/-- Alike objects are accepted or rejected together, and for one reason. -/
theorem rejectionReason_eq {publication publication' : Publication Bytes}
    (hmeta : AlikeSidecars py watched publication.meta publication'.meta)
    (hworkflows : Akin (AlikeFiles py watched workflowsSchema) publication.workflows
      publication'.workflows)
    (hruns : Akin (AlikeFiles py watched runsSchema) publication.runs publication'.runs) :
    generationRejectionReason py (some publication) =
      generationRejectionReason py (some publication') := by
  have hids : generationIds py publication = generationIds py publication' := by
    rw [generationIds, generationIds, metaGenerationId, metaGenerationId, hmeta.id,
      hworkflows.footer, hruns.footer]
  unfold generationRejectionReason
  dsimp only
  rw [validMeta_eq_true_iff.mpr hmeta.valid, validMeta_eq_true_iff.mpr hmeta.valid', hids,
    hmeta.time, hworkflows.isNone, hruns.isNone]

section Reads

variable {pfx : String} {store store' : ObjectStore Bytes}
  (h : AlikeStores py watched pfx store store') {cluster : String} (hcluster : cluster ∈ watched)
  (last : Option (Publication Bytes))

include h hcluster

/-- Behind two alike markers the same is selected, as far as a watched cluster goes. -/
theorem viewOf_select {metaJson metaJson' : Json}
    (hmeta : AlikeSidecars py watched metaJson metaJson') :
    (selectGenerationResult py (some (behindMarker store pfx metaJson)) last none).map
        (viewOf py cluster) =
      (selectGenerationResult py (some (behindMarker store' pfx metaJson')) last none).map
        (viewOf py cluster) := by
  have hworkflows : Akin (AlikeFiles py watched workflowsSchema)
      (store (key pfx "workflows.parquet")) (store' (key pfx "workflows.parquet")) :=
    (h "workflows.parquet").imp fun _ _ halike => halike.workflows rfl
  have hruns : Akin (AlikeFiles py watched runsSchema)
      (store (key pfx "runs.parquet")) (store' (key pfx "runs.parquet")) :=
    (h "runs.parquet").imp fun _ _ halike => halike.runs rfl
  have hreason : generationRejectionReason py (some (behindMarker store pfx metaJson)) =
      generationRejectionReason py (some (behindMarker store' pfx metaJson')) :=
    rejectionReason_eq hmeta hworkflows hruns
  obtain ⟨rejection, hrejection⟩ :=
    rejectionReason_of_valid (behindMarker store' pfx metaJson') hmeta.valid'
  rw [hrejection] at hreason
  cases rejection with
  | some reason => rw [select_of_rejected last none hreason, select_of_rejected last none hrejection]
  | none =>
      obtain ⟨id, hone⟩ := (rejectionReason_eq_none_iff _).mp hreason
      obtain ⟨id', hone'⟩ := (rejectionReason_eq_none_iff _).mp hrejection
      rw [select_of_accepted last hreason, select_of_accepted last hrejection]
      have hshown := shownOf_eq hone hone' hmeta hworkflows hruns hcluster
      simp only [Except.map, viewOf, Option.map_some, hshown]

theorem clusterView_of_alike {data data' : Bytes} {metaJson metaJson' : Json}
    (hdata : store (key pfx "meta.json") = some data)
    (hdata' : store' (key pfx "meta.json") = some data') (hloads : py.jsonLoads data = .ok metaJson)
    (hloads' : py.jsonLoads data' = .ok metaJson')
    (hmeta : AlikeSidecars py watched metaJson metaJson') (freshness : Option FreshnessCheck) :
    clusterView py store pfx cluster last freshness =
      clusterView py store' pfx cluster last freshness := by
  have hselect := viewOf_select h hcluster last hmeta
  unfold clusterView
  cases freshness with
  | none =>
      rw [readStore_of_valid last hdata hloads hmeta.valid,
        readStore_of_valid last hdata' hloads' hmeta.valid']
      exact hselect
  | some check =>
      -- both are as old as the other, with the same threshold
      have hfresh : isFresh metaJson check.now check.maxCycleSeconds =
          isFresh metaJson' check.now check.maxCycleSeconds := by
        unfold isFresh freshnessAgeSeconds freshnessThresholdSeconds
        rw [hmeta.time, hmeta.interval]
      rw [readStore_of_valid_check last hdata hloads hmeta.valid,
        readStore_of_valid_check last hdata' hloads' hmeta.valid', hfresh]
      cases isFresh metaJson' check.now check.maxCycleSeconds with
      | error e => rfl
      | ok fresh =>
          cases fresh with
          | true => exact hselect
          | false => rfl

/-- Stores that agree on the watched clusters give the same view of each of them. -/
theorem clusterView_eq (freshness : Option FreshnessCheck) :
    clusterView py store pfx cluster last freshness =
      clusterView py store' pfx cluster last freshness := by
  rcases h "meta.json" with hsame | ⟨data, data', hdata, hdata', halike⟩
  · cases hobject : store (key pfx "meta.json") with
    | none =>
        rw [clusterView, clusterView, readStore_of_absent last hobject,
          readStore_of_absent last (hsame ▸ hobject)]
    | some data =>
        have hobject' : store' (key pfx "meta.json") = some data := hsame ▸ hobject
        cases hparse : parseMarker py data with
        | error e =>
            rw [clusterView, clusterView, readStore_of_parse_error last hobject hparse,
              readStore_of_parse_error last hobject' hparse]
        | ok metaJson =>
            obtain ⟨decoded, hloads, hrest⟩ := bind_eq_ok.mp hparse
            obtain ⟨⟨⟩, hvalid, _⟩ := bind_eq_ok.mp hrest
            exact clusterView_of_alike h hcluster last hobject hobject' hloads hloads
              ⟨hvalid, hvalid, rfl, rfl, rfl, fun _ _ => rfl⟩ freshness
  · obtain ⟨metaJson, metaJson', hloads, hloads', hmeta⟩ := halike.marker rfl
    exact clusterView_of_alike h hcluster last hdata hdata' hloads hloads' hmeta freshness

end Reads

end ArgoExporter.Consumer
