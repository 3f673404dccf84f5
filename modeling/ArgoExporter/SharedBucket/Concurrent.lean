/-
  ArgoExporter.SharedBucket.Concurrent

  Any number of exporter processes under one prefix, which nothing in the code
  keeps apart, with crashes and consumers.  Whatever order their requests come
  in, what is stored and what a consumer ever shows are rows that some cycle
  was given by its clusters.
-/

import ArgoExporter.Main.StoredRows
import ArgoExporter.SharedBucket.Serial

namespace ArgoExporter.SharedBucket

open ArgoExporter.Py
open ArgoExporter.ParquetIo
open ArgoExporter.S3io
open ArgoExporter.Main
open ArgoExporter.Consumer
open ArgoExporter.SharedPrefix (Reader Reading)

variable {Bytes : Type} (py : Platform Bytes) {pfx : String}

/-! ## Sound objects -/

section Sound

variable (listings : List Listing)

/-- A snapshot of rows that are all in one listing. -/
def SoundSnapshot (data : Bytes) : Prop :=
  ∃ table, parquetBytesToTable py (some data) workflowsSchema = .ok table ∧
    ∃ listing ∈ listings, ∀ row ∈ snapshotRows table, listing.Shows py row

/-- A ledger with one row for a run, seen in the listings. -/
def SoundLedger (data : Bytes) : Prop :=
  ∃ table, parquetBytesToTable py (some data) runsSchema = .ok table ∧
    StoresSeenRows py listings (ledgerRows table)

/-- A sidecar that keeps to the contract, with the time of a listing. -/
def SoundSidecar (metaJson : Json) : Prop :=
  MetaSchema.validate py metaJson = .ok () ∧
    ∃ listing ∈ listings, metaJson.get "generated_at" = .str listing.time.text

/-- The bytes of a sound object of this name. -/
structure Sound (name : String) (data : Bytes) : Prop where
  snapshot : name = "workflows.parquet" → SoundSnapshot py listings data
  ledger : name = "runs.parquet" → SoundLedger py listings data
  sidecar : name = "meta.json" →
    ∃ metaJson, py.jsonLoads data = .ok metaJson ∧ SoundSidecar py listings metaJson

/-- A publication of three sound objects. -/
structure SoundPublication (publication : Publication Bytes) : Prop where
  «meta» : SoundSidecar py listings publication.meta
  workflows : ∃ data, publication.workflows = some data ∧ SoundSnapshot py listings data
  runs : ∃ data, publication.runs = some data ∧ SoundLedger py listings data

/-- Whatever is stored under the prefix is sound. -/
def SoundStore (pfx : String) (store : ObjectStore Bytes) : Prop :=
  ∀ name ∈ publicationObjects, ∀ data, store (objectKey pfx name) = some data →
    Sound py listings name data

/-- The response to a GET of a sound object. -/
def SoundResponse (name : String) (response : Except Exc Bytes) : Prop :=
  ∀ data, response = .ok data → Sound py listings name data

/-- What a consumer has been given so far is sound. -/
structure SoundReader (r : Reader Bytes) : Prop where
  gotMeta : ∀ getMeta, r.reading = .gotMeta getMeta → SoundResponse py listings "meta.json" getMeta
  gotWorkflows : ∀ getMeta getWorkflows, r.reading = .gotWorkflows getMeta getWorkflows →
    SoundResponse py listings "meta.json" getMeta ∧
      SoundResponse py listings "workflows.parquet" getWorkflows
  last : ∀ publication, r.lastComplete = some publication → SoundPublication py listings publication
  results : ∀ result ∈ r.results, ∀ publication, result.publication = some publication →
    SoundPublication py listings publication

/-- Nothing but sound objects is stored, about to be stored, or in the hands of a consumer. -/
structure SoundDeployment (x : Deployment pfx Bytes × ObjectStore Bytes) : Prop where
  store : SoundStore py listings pfx x.2
  publishing : ∀ process publishing, x.1.publishing process = some publishing →
    ∀ upload ∈ publishing.todo, Sound py listings upload.name upload.data
  readers : ∀ consumer, SoundReader py listings (x.1.readers consumer)

end Sound

variable {py} {listings : List Listing}

/-! ## Later listings -/

section Later

variable (later : List Listing)

theorem SoundSnapshot.append {data : Bytes} (h : SoundSnapshot py listings data) :
    SoundSnapshot py (listings ++ later) data := by
  obtain ⟨table, hdecode, listing, hlisting, hshows⟩ := h
  exact ⟨table, hdecode, listing, List.mem_append_left _ hlisting, hshows⟩

theorem SoundLedger.append {data : Bytes} (h : SoundLedger py listings data) :
    SoundLedger py (listings ++ later) data := by
  obtain ⟨table, hdecode, hseen⟩ := h
  exact ⟨table, hdecode, hseen.append later⟩

theorem SoundSidecar.append {metaJson : Json} (h : SoundSidecar py listings metaJson) :
    SoundSidecar py (listings ++ later) metaJson := by
  obtain ⟨hvalid, listing, hlisting, htime⟩ := h
  exact ⟨hvalid, listing, List.mem_append_left _ hlisting, htime⟩

theorem Sound.append {name : String} {data : Bytes} (h : Sound py listings name data) :
    Sound py (listings ++ later) name data where
  snapshot := fun hname => (h.snapshot hname).append later
  ledger := fun hname => (h.ledger hname).append later
  sidecar := fun hname => by
    obtain ⟨metaJson, hloads, hmeta⟩ := h.sidecar hname
    exact ⟨metaJson, hloads, hmeta.append later⟩

theorem SoundPublication.append {publication : Publication Bytes}
    (h : SoundPublication py listings publication) :
    SoundPublication py (listings ++ later) publication where
  «meta» := h.meta.append later
  workflows := by
    obtain ⟨data, hdata, hsound⟩ := h.workflows
    exact ⟨data, hdata, hsound.append later⟩
  runs := by
    obtain ⟨data, hdata, hsound⟩ := h.runs
    exact ⟨data, hdata, hsound.append later⟩

theorem SoundResponse.append {name : String} {response : Except Exc Bytes}
    (h : SoundResponse py listings name response) :
    SoundResponse py (listings ++ later) name response :=
  fun data hdata => (h data hdata).append later

theorem SoundReader.append {r : Reader Bytes} (h : SoundReader py listings r) :
    SoundReader py (listings ++ later) r where
  gotMeta := fun getMeta hreading => (h.gotMeta getMeta hreading).append later
  gotWorkflows := fun getMeta getWorkflows hreading => by
    obtain ⟨hmeta, hworkflows⟩ := h.gotWorkflows getMeta getWorkflows hreading
    exact ⟨hmeta.append later, hworkflows.append later⟩
  last := fun publication hlast => (h.last publication hlast).append later
  results := fun result hresult publication hp =>
    (h.results result hresult publication hp).append later

theorem SoundDeployment.append {x : Deployment pfx Bytes × ObjectStore Bytes}
    (h : SoundDeployment py listings x) : SoundDeployment py (listings ++ later) x where
  store := fun name hname data hdata => (h.store name hname data hdata).append later
  publishing := fun process publishing hp upload hupload =>
    (h.publishing process publishing hp upload hupload).append later
  readers := fun consumer => (h.readers consumer).append later

end Later

/-! ## A process -/

/-- What a cycle computes from a sound ledger is sound once its own listing counts. -/
theorem sound_uploads (hpq : ParquetFaithful py) (hjson : JsonFaithful py) {cfg : Config}
    {store : ObjectStore Bytes} (under : SamePrefix cfg.destPrefix pfx)
    (hstore : SoundStore py listings pfx store) {inputs : CycleInputs cfg}
    {payloads : Payloads Bytes} {stats : List Workflows.ClusterStat}
    (h : prepare py cfg inputs.now inputs.uuid inputs.answers
      (getObject store inputs.getRuns (objectKey cfg.destPrefix "runs.parquet")) =
        .ready payloads stats) :
    ∀ upload ∈ uploads inputs payloads,
      Sound py (listings ++ [inputs.listing]) upload.name upload.data := by
  obtain ⟨rows, stored, hfetch, _, hledger, hcompute⟩ := (prepare_eq_ready_iff py).mp h
  obtain ⟨merged, hmerge, hworkflows, hruns, hmeta, hone⟩ := decode_of_compute hpq hjson hcompute
  have hshows : ∀ row ∈ rows, inputs.listing.Shows py row := Workflows.listedIn_of_fetch hfetch
  have hmem : inputs.listing ∈ listings ++ [inputs.listing] := by simp
  -- the ledger that was read is sound; without an object it has no rows
  have hstored : StoresSeenRows py listings (ledgerRows stored) := by
    obtain ⟨data, hdownload, hdecode⟩ := bind_eq_ok.mp hledger
    obtain ⟨_, rfl⟩ := downloadBytes_eq_ok hdownload
    rw [(objectKey_eq_iff cfg.destPrefix pfx "runs.parquet").mpr under] at hdecode
    cases hobject : store (objectKey pfx "runs.parquet") with
    | none =>
        rw [hobject, decode_none hpq (Or.inr rfl), Except.ok.injEq] at hdecode
        subst hdecode
        exact storesSeenRows_nil listings
    | some data =>
        obtain ⟨table, htable, hseen⟩ :=
          (hstore "runs.parquet" (by simp [publicationObjects]) data hobject).ledger rfl
        rw [hobject, htable, Except.ok.injEq] at hdecode
        subst hdecode
        exact hseen
  have hsettled : ∀ row ∈ rows, Ledger.rederive py row = row.shared := by
    intro row hrow
    obtain ⟨wf, clusterName, hwf⟩ := Workflows.toRow_of_fetch hfetch row hrow
    exact Ledger.rederive_toRow hwf
  intro upload hupload
  simp only [uploads, List.mem_cons, List.not_mem_nil, or_false] at hupload
  rcases hupload with rfl | rfl | rfl
  · refine ⟨fun _ => ⟨_, hworkflows, inputs.listing, hmem, ?_⟩, by simp, by simp⟩
    rw [snapshotRows_tableOf]
    exact hshows
  · refine ⟨by simp, fun _ => ⟨_, hruns, ?_⟩, by simp⟩
    rw [ledgerRows_tableOf]
    exact storesSeenRows_merge hstored hsettled hshows hmerge
  · exact ⟨by simp, by simp, fun _ => ⟨_, hmeta, hone.valid, inputs.listing, hmem, rfl⟩⟩

/-- A PUT of a sound object keeps a store sound, however it ends. -/
theorem soundStore_upload {store : ObjectStore Bytes} (hstore : SoundStore py listings pfx store)
    {readPrefix : String} (under : SamePrefix readPrefix pfx) {upload : Upload Bytes}
    (hupload : Sound py listings upload.name upload.data) :
    SoundStore py listings pfx
      (uploadBytes store upload.outcome (objectKey readPrefix upload.name) upload.data).2 := by
  rw [(objectKey_eq_iff readPrefix pfx upload.name).mpr under]
  intro name hname data hdata
  by_cases hsame : name = upload.name
  · subst hsame
    rw [uploadBytes_self] at hdata
    split at hdata
    · rw [← Option.some.inj hdata]
      exact hupload
    · exact hstore _ hname data hdata
  · rw [uploadBytes_ne _ _ _ fun hkey => hsame (objectKey_injective pfx hkey)] at hdata
    exact hstore name hname data hdata

variable {x : Deployment pfx Bytes × ObjectStore Bytes}

/-- A process that turns idle has nothing to store. -/
theorem SoundDeployment.idle (h : SoundDeployment py listings x) (process : ℕ)
    (ended : List (ℕ × CycleOutcome)) {store : ObjectStore Bytes}
    (hstore : SoundStore py listings pfx store) :
    SoundDeployment py listings
      (⟨Function.update x.1.publishing process none, ended, x.1.readers⟩, store) where
  store := hstore
  publishing := by
    intro other publishing hp
    dsimp only at hp
    by_cases hother : other = process
    · subst hother
      rw [Function.update_self] at hp
      exact absurd hp (by simp)
    · rw [Function.update_of_ne hother] at hp
      exact h.publishing other publishing hp
  readers := h.readers

theorem SoundDeployment.assign (h : SoundDeployment py listings x) (process : ℕ)
    {publishing : Publishing pfx Bytes}
    (hpublishing : ∀ upload ∈ publishing.todo, Sound py listings upload.name upload.data)
    {store : ObjectStore Bytes} (hstore : SoundStore py listings pfx store) :
    SoundDeployment py listings (x.1.assign process publishing, store) where
  store := hstore
  publishing := by
    intro other todo hp
    by_cases hother : other = process
    · subst hother
      have hself : (x.1.assign other publishing).publishing other = some publishing :=
        Function.update_self ..
      rw [hself, Option.some.injEq] at hp
      exact hp ▸ hpublishing
    · have hsame : (x.1.assign process publishing).publishing other = x.1.publishing other :=
        Function.update_of_ne hother ..
      rw [hsame] at hp
      exact h.publishing other todo hp
  readers := h.readers

theorem SoundDeployment.advance (h : SoundDeployment py listings x) (process : ℕ) :
    SoundDeployment py listings (Deployment.advance process x) := by
  unfold Deployment.advance
  split
  · exact h
  · exact h.idle process _ h.store
  · rename_i cfg under stats published upload todo named hp
    have htodo := h.publishing process _ hp
    have hstore := soundStore_upload h.store under (htodo upload List.mem_cons_self)
    split
    · rename_i store heq
      rw [heq] at hstore
      exact h.assign process (fun u hu => htodo u (List.mem_cons_of_mem _ hu)) hstore
    · rename_i e store heq
      rw [heq] at hstore
      exact h.idle process _ hstore

/-! ## A consumer -/

theorem soundResponse_get {store : ObjectStore Bytes} (hstore : SoundStore py listings pfx store)
    {readPrefix name : String} (under : SamePrefix readPrefix pfx)
    (hname : name ∈ publicationObjects) (outcome : GetOutcome) :
    SoundResponse py listings name (getObject store outcome (key readPrefix name)) := by
  intro data hdata
  have hstored : store (objectKey readPrefix name) = some data := getObject_eq_ok hdata
  rw [(objectKey_eq_iff readPrefix pfx name).mpr under] at hstored
  exact hstore name hname data hstored

/-- A result of sound responses has a sound publication, new or retained. -/
theorem soundPublication_read {getMeta getWorkflows getRuns : Except Exc Bytes}
    {last : Option (Publication Bytes)} {freshness : Option FreshnessCheck}
    {result : PublicationResult Bytes}
    (h : readGenerationResult py getMeta getWorkflows getRuns last freshness = .ok result)
    (hmeta : SoundResponse py listings "meta.json" getMeta)
    (hworkflows : SoundResponse py listings "workflows.parquet" getWorkflows)
    (hruns : SoundResponse py listings "runs.parquet" getRuns)
    (hlast : ∀ publication, last = some publication → SoundPublication py listings publication) :
    ∀ publication, result.publication = some publication →
      SoundPublication py listings publication := by
  intro publication hp
  rcases readGenerationResult_cases h with ⟨hretained, _⟩ |
    ⟨marker, workflows, runs, metaJson, _, hgetMeta, hgetWorkflows, hgetRuns, hloads, rfl, _⟩
  · exact hlast publication (hretained ▸ hp)
  · obtain rfl := Option.some.inj hp
    obtain ⟨decoded, hdecoded, hsidecar⟩ := (hmeta marker hgetMeta).sidecar rfl
    rw [hloads, Except.ok.injEq] at hdecoded
    subst hdecoded
    exact ⟨hsidecar, ⟨workflows, rfl, (hworkflows workflows hgetWorkflows).snapshot rfl⟩,
      ⟨runs, rfl, (hruns runs hgetRuns).ledger rfl⟩⟩

theorem SoundReader.get {r : Reader Bytes} (h : SoundReader py listings r)
    {store : ObjectStore Bytes} (hstore : SoundStore py listings pfx store) {readPrefix : String}
    (under : SamePrefix readPrefix pfx) (outcome : GetOutcome)
    (freshness : Option FreshnessCheck) :
    SoundReader py listings (readerGet py readPrefix store outcome freshness r) := by
  have hresponse : ∀ name ∈ publicationObjects,
      SoundResponse py listings name (getObject store outcome (key readPrefix name)) :=
    fun name hname => soundResponse_get hstore under hname outcome
  unfold readerGet
  cases hreading : r.reading with
  | idle =>
      refine ⟨fun getMeta hgot => ?_, by simp, h.last, h.results⟩
      rw [Reading.gotMeta.injEq] at hgot
      exact hgot ▸ hresponse "meta.json" (by simp [publicationObjects])
  | gotMeta getMeta =>
      refine ⟨by simp, fun getMeta' getWorkflows hgot => ?_, h.last, h.results⟩
      rw [Reading.gotWorkflows.injEq] at hgot
      obtain ⟨rfl, rfl⟩ := hgot
      exact ⟨h.gotMeta getMeta hreading,
        hresponse "workflows.parquet" (by simp [publicationObjects])⟩
  | gotWorkflows getMeta getWorkflows =>
      obtain ⟨hmeta, hworkflows⟩ := h.gotWorkflows getMeta getWorkflows hreading
      dsimp only
      split
      · rename_i result hresult
        have hsound := soundPublication_read hresult hmeta hworkflows
          (hresponse "runs.parquet" (by simp [publicationObjects])) h.last
        exact ⟨by simp, by simp, hsound, List.forall_mem_cons.mpr ⟨hsound, h.results⟩⟩
      · exact ⟨by simp, by simp, h.last, h.results⟩

/-! ## Runs -/

/-- The listing of the cycle that an act starts; a busy process starts none. -/
def started (act : Act pfx) (d : Deployment pfx Bytes) : List Listing :=
  match act with
  | .begin process _ _ inputs => if (d.publishing process).isNone then [inputs.listing] else []
  | _ => []

/-- An act, and the listings of the cycles started so far. -/
def record (py : Platform Bytes) (y : (Deployment pfx Bytes × ObjectStore Bytes) × List Listing)
    (act : Act pfx) : (Deployment pfx Bytes × ObjectStore Bytes) × List Listing :=
  (perform py act y.1, y.2 ++ started act y.1.1)

theorem soundReader_start : SoundReader py listings Reader.start :=
  ⟨by simp [Reader.start], by simp [Reader.start], by simp [Reader.start], by simp [Reader.start]⟩

theorem SoundDeployment.perform (hpq : ParquetFaithful py) (hjson : JsonFaithful py)
    (h : SoundDeployment py listings x) (act : Act pfx) :
    SoundDeployment py (listings ++ started act x.1) (perform py act x) := by
  cases act with
  | begin process cfg under inputs =>
      unfold SharedBucket.perform started Deployment.begin
      dsimp only
      cases hidle : x.1.publishing process with
      -- a busy process goes on with its cycle
      | some todo => exact h.append []
      | none =>
          have hlater := h.append [inputs.listing]
          dsimp only [Option.isNone_none]
          rw [if_pos rfl]
          split
          · exact hlater.idle process _ hlater.store
          · exact hlater.idle process _ hlater.store
          · rename_i payloads stats hprep
            exact hlater.assign process (sound_uploads hpq hjson under h.store hprep) hlater.store
  | advance process => exact (h.advance process).append []
  | crash process => exact (h.idle process _ h.store).append []
  | get consumer readPrefix under outcome freshness =>
      refine SoundDeployment.append [] ⟨h.store, h.publishing, fun other => ?_⟩
      by_cases hother : other = consumer
      · subst hother
        have hself : (SharedBucket.perform py (.get other readPrefix under outcome freshness)
            x).1.readers other =
              readerGet py readPrefix x.2 outcome freshness (x.1.readers other) :=
          Function.update_self ..
        rw [hself]
        exact (h.readers other).get h.store under outcome freshness
      · have hsame : (SharedBucket.perform py (.get consumer readPrefix under outcome freshness)
            x).1.readers other = x.1.readers other := Function.update_of_ne hother ..
        rw [hsame]
        exact h.readers other

theorem soundDeployment_record (hpq : ParquetFaithful py) (hjson : JsonFaithful py)
    {y : (Deployment pfx Bytes × ObjectStore Bytes) × List Listing}
    (h : SoundDeployment py y.2 y.1) (acts : List (Act pfx)) :
    SoundDeployment py (acts.foldl (record py) y).2 (acts.foldl (record py) y).1 := by
  induction acts generalizing y with
  | nil => exact h
  | cons act acts ih => exact ih (h.perform hpq hjson act)

/-- Any number of exporter processes under one prefix, crashing at any point, and any number of
    consumers: from objects that past listings account for, in every order of their requests what
    is stored stays well formed and has only rows that some cycle was given, and so has every
    publication a consumer is ever answered with. -/
theorem concurrent_exporters_stay_sound (hpq : ParquetFaithful py) (hjson : JsonFaithful py)
    {past : List Listing} {store : ObjectStore Bytes} (hstore : SoundStore py past pfx store)
    (acts : List (Act pfx)) :
    let after := acts.foldl (record py) ((Deployment.fresh pfx Bytes, store), past)
    SoundStore py after.2 pfx after.1.2 ∧
      ∀ consumer, ∀ result ∈ (after.1.1.readers consumer).results,
        ∀ publication, result.publication = some publication →
          SoundPublication py after.2 publication := by
  have hstart : SoundDeployment py past (Deployment.fresh pfx Bytes, store) :=
    ⟨hstore, by simp [Deployment.fresh], fun _ => soundReader_start⟩
  have hafter := soundDeployment_record hpq hjson
    (y := ((Deployment.fresh pfx Bytes, store), past)) hstart acts
  exact ⟨hafter.store, fun consumer => (hafter.readers consumer).results⟩

/-- Two processes that run a cycle on the same ledger, one of which is lost; the other one publishes
    and a consumer reads. -/
def overlapping (c : OneCycle pfx) : List (Act pfx) :=
  [.begin 0 c.cfg c.under c.inputs, .begin 1 c.cfg c.under c.inputs, .advance 0, .advance 1,
    .advance 0, .crash 1, .advance 0, .get 0 c.cfg.destPrefix c.under .served none,
    .get 0 c.cfg.destPrefix c.under .served none, .get 0 c.cfg.destPrefix c.under .served none]

/-- Two cycles of one prefix overlap, one of them is lost, and a consumer reads what the other one
    published. -/
theorem concurrent_exporters_stay_sound_overlapping :
    let after := (overlapping (nestedCycle true)).foldl (record Reference.platform)
      ((Deployment.fresh (nestedPrefix true) Reference.TaggedBytes, Reference.emptyStore), [])
    SoundStore Reference.platform after.2 (nestedPrefix true) after.1.2 ∧
      ∀ consumer, ∀ result ∈ (after.1.1.readers consumer).results,
        ∀ publication, result.publication = some publication →
          SoundPublication Reference.platform after.2 publication :=
  concurrent_exporters_stay_sound Reference.parquetFaithful Reference.jsonFaithful
    (fun _ _ _ hdata => absurd hdata (by simp [Reference.emptyStore])) _

end ArgoExporter.SharedBucket
