/-
  ArgoExporter.Consumer.Answers

  What a consumer can rely on in any answer it ever gets: a returned
  publication is always complete, it is the newest one that was fresh, its
  sidecar has an availability for each of its clusters, and the current rows
  are those of the clusters that answered.
-/

import ArgoExporter.Main.Acceptance
import ArgoExporter.MetaSchema.Contract
import ArgoExporter.SharedPrefix

namespace ArgoExporter.Consumer

open ArgoExporter.Py
open ArgoExporter.S3io
open ArgoExporter.ParquetIo
open ArgoExporter.MetaSchema (ClusterContract)
open ArgoExporter.SharedPrefix (Reader Reading ReaderStep)

variable {Bytes : Type} (py : Platform Bytes)

/-! ## Availability -/

/-- The availability of one `clusters[]` entry. -/
def availabilityOf (cluster : Json) : String × Bool :=
  ((cluster.get "name").orEmpty, match cluster.get "ok" with | .bool ok => ok | _ => false)

variable {py}

theorem availabilityEntry_of_contract {cluster : Json} (h : ClusterContract cluster)
    {seen : List (String × Bool)} (hnew : (availabilityOf cluster).1 ∉ seen.map Prod.fst)
    (index : Nat) : availabilityEntry py seen index cluster = .ok (availabilityOf cluster) := by
  obtain ⟨name, hname, hne⟩ := h.name
  obtain ⟨ok, hok⟩ := h.ok
  have hof : availabilityOf cluster = (name, ok) := by
    rw [availabilityOf, hname, hok, Json.orEmpty_str]
  rw [hof] at hnew ⊢
  unfold availabilityEntry
  rw [if_neg (by simp [h.fields.1]), hname, hok]
  dsimp only
  rw [if_neg hne, if_neg hnew]

theorem availabilityEntries_of_contract {clusters : List Json} {seen : List (String × Bool)}
    {index : Nat} (heach : ∀ c ∈ clusters, ClusterContract c)
    (hdistinct : (seen.map Prod.fst ++ clusters.map fun c => (availabilityOf c).1).Nodup) :
    availabilityEntries py seen index clusters = .ok (seen ++ clusters.map availabilityOf) := by
  induction clusters generalizing seen index with
  | nil => simp [availabilityEntries]
  | cons cluster clusters ih =>
      rw [List.forall_mem_cons] at heach
      have hnew : (availabilityOf cluster).1 ∉ seen.map Prod.fst := fun hmem =>
        (List.nodup_append.mp hdistinct).2.2 _ hmem _ List.mem_cons_self rfl
      have hrest : ((seen ++ [availabilityOf cluster]).map Prod.fst ++
          clusters.map fun c => (availabilityOf c).1).Nodup := by
        simpa [List.append_assoc] using hdistinct
      rw [availabilityEntries, availabilityEntry_of_contract heach.1 hnew, ok_bind,
        ih heach.2 hrest, List.map_cons, List.append_assoc]
      rfl

/-- An accepted sidecar has well-formed clusters with different names. -/
theorem clusters_of_validate {metaJson : Json} (h : MetaSchema.validate py metaJson = .ok ()) :
    metaJson.isDict = true ∧ metaJson.has "clusters" = true ∧
      ∃ clusters, metaJson.get "clusters" = .arr clusters ∧
        (∀ c ∈ clusters, ClusterContract c) ∧
        (clusters.map fun c => (availabilityOf c).1).Nodup := by
  have hconforms := MetaSchema.conforms_of_validate py h
  have hcross := ((MetaSchema.validate_eq_ok_iff py metaJson).mp h).2
  obtain ⟨clusters, hclusters, -, heach⟩ := hconforms.clusters
  obtain ⟨total, htotal, -⟩ := hconforms.workflows
  rw [MetaSchema.crossFieldViolations_eq_nil_iff py hconforms.fields.1,
    MetaSchema.clusterViolations_eq_nil_iff py hclusters htotal heach] at hcross
  refine ⟨hconforms.fields.1, (hconforms.fields.2 "clusters").mpr (by simp), clusters, hclusters,
    heach, ?_⟩
  -- the schema makes the names texts, so differing names are differing texts
  rw [List.Nodup, List.pairwise_map]
  refine hcross.2.1.imp_of_mem fun {c d} hc hd hne heq => hne ?_
  obtain ⟨name, hname, -⟩ := (heach c hc).name
  obtain ⟨other, hother, -⟩ := (heach d hd).name
  simp only [availabilityOf, hname, hother, Json.orEmpty_str] at heq
  rw [hname, hother, heq]

/-! ## Publications to show -/

/-- `is_complete_generation`. -/
def isCompleteGeneration (py : Platform Bytes) (publication : Option (Publication Bytes)) :
    Except Exc Bool := do
  return (← generationRejectionReason py publication).isNone

/-- The clusters whose listing the sidecar vouches for. -/
def Vouched (clusters : List Json) (row : Record) : Prop :=
  ∃ cluster ∈ clusters, cluster.get "ok" = .bool true ∧ Record.get row "cluster" = cluster.get "name"

/-- A publication that a consumer can show. -/
structure Showable (py : Platform Bytes) (publication : Publication Bytes) : Prop where
  complete : isCompleteGeneration py (some publication) = .ok true
  files : publication.workflows.isSome = true ∧ publication.runs.isSome = true
  oneId : ∃ id, generationIds py publication = (some id, some id, some id)
  current : ∃ clusters availability, publication.meta.get "clusters" = .arr clusters ∧
    clusterAvailability py publication = .ok availability ∧
    (availability.map fun entry => (Json.str entry.1, Json.bool entry.2)) =
      (clusters.map fun cluster => (cluster.get "name", cluster.get "ok")) ∧
    (availability.map Prod.fst).Nodup ∧
    ∃ keep : Record → Bool, (∀ row, keep row = true ↔ Vouched clusters row) ∧
      currentSnapshotRows py publication =
        (parquetBytesToTable py publication.workflows workflowsSchema).map fun table =>
          table.toPylist.filter keep

theorem mem_available_iff {clusters : List Json} (heach : ∀ c ∈ clusters, ClusterContract c)
    (row : Record) :
    isOneOf (((clusters.map availabilityOf).filter Prod.snd).map Prod.fst)
        (Record.get row "cluster") = true ↔ Vouched clusters row := by
  have hof : ∀ c ∈ clusters, ∃ name ok, c.get "name" = .str name ∧ c.get "ok" = .bool ok ∧
      availabilityOf c = (name, ok) := by
    intro c hc
    obtain ⟨name, hname, -⟩ := (heach c hc).name
    obtain ⟨ok, hok⟩ := (heach c hc).ok
    exact ⟨name, ok, hname, hok, by rw [availabilityOf, hname, hok, Json.orEmpty_str]⟩
  constructor
  · intro h
    unfold isOneOf at h
    split at h
    · rename_i name hcell
      rw [List.contains_iff_mem, List.mem_map] at h
      obtain ⟨entry, hentry, rfl⟩ := h
      obtain ⟨hmem, hok⟩ := List.mem_filter.mp hentry
      obtain ⟨c, hc, rfl⟩ := List.mem_map.mp hmem
      obtain ⟨name, ok, hname, hcok, havailable⟩ := hof c hc
      rw [havailable] at hok hcell
      dsimp only at hok hcell
      subst hok
      exact ⟨c, hc, hcok, by rw [hcell, hname]⟩
    · exact absurd h (by simp)
  · rintro ⟨c, hc, hok, hcell⟩
    obtain ⟨name, ok, hname, hcok, havailable⟩ := hof c hc
    rw [hok, Json.bool.injEq] at hcok
    subst hcok
    rw [hcell, hname, isOneOf, List.contains_iff_mem, List.mem_map]
    refine ⟨(name, true), List.mem_filter.mpr ⟨?_, rfl⟩, rfl⟩
    exact havailable ▸ List.mem_map_of_mem hc

/-- Whatever is accepted as one generation can be shown. -/
theorem showable_of_oneGeneration {publication : Publication Bytes} {id : String}
    (h : OneGeneration py publication id) : Showable py publication := by
  obtain ⟨hdict, hhas, clusters, hclusters, heach, hnodup⟩ := clusters_of_validate h.valid
  obtain ⟨workflows, hworkflows, -⟩ := footerGenerationId_eq_some.mp h.workflows
  obtain ⟨runs, hruns, -⟩ := footerGenerationId_eq_some.mp h.runs
  have havailability : clusterAvailability py publication = .ok (clusters.map availabilityOf) := by
    unfold clusterAvailability
    rw [if_neg (by simp [hdict]), hclusters]
    exact availabilityEntries_of_contract heach (by simpa using hnodup)
  refine {
    complete := ?_
    files := ⟨by rw [hworkflows]; rfl, by rw [hruns]; rfl⟩
    oneId := ⟨id, by rw [generationIds, h.meta, h.workflows, h.runs]⟩
    current := ⟨clusters, _, hclusters, havailability, ?_, ?_,
      fun row => isOneOf (((clusters.map availabilityOf).filter Prod.snd).map Prod.fst)
        (Record.get row "cluster"), mem_available_iff heach, ?_⟩ }
  · rw [isCompleteGeneration, (rejectionReason_eq_none_iff publication).mpr ⟨id, h⟩]
    rfl
  · rw [List.map_map]
    refine List.map_congr_left fun c hc => ?_
    obtain ⟨name, hname, -⟩ := (heach c hc).name
    obtain ⟨ok, hok⟩ := (heach c hc).ok
    rw [Function.comp_apply, availabilityOf, hname, hok, Json.orEmpty_str]
  · rwa [List.map_map]
  · unfold currentSnapshotRows
    cases parquetBytesToTable py publication.workflows workflowsSchema with
    | error e => rfl
    | ok table =>
        rw [ok_bind, if_neg (by simp [hdict, hhas]), havailability]
        rfl

/-! ## Runs of a consumer -/

/-- The reads of a consumer, of objects that anyone may change between its GETs. -/
def ConsumerReachable (py : Platform Bytes) (pfx : String) (r : Reader Bytes) : Prop :=
  Relation.ReflTransGen (fun r r' => ∃ store, ReaderStep py pfx store r r') Reader.start r

/-- The publication of the newest fresh result; the newest result comes first. -/
def newestFresh (results : List (PublicationResult Bytes)) : Option (Publication Bytes) :=
  (results.find? fun result => result.status = .fresh).bind PublicationResult.publication

/-- A proper answer, given the earlier ones. -/
structure ProperAnswer (py : Platform Bytes) (result : PublicationResult Bytes)
    (earlier : List (PublicationResult Bytes)) : Prop where
  newest : result.publication = newestFresh (result :: earlier)
  current : result.status = .fresh ↔ result.reason = none
  unavailable : result.status = .noPublication ↔ result.publication = none
  showable : ∀ publication, result.publication = some publication → Showable py publication

theorem newestFresh_fresh (publication : Publication Bytes)
    (earlier : List (PublicationResult Bytes)) :
    newestFresh (⟨some publication, .fresh, none⟩ :: earlier) = some publication := rfl

theorem newestFresh_retained (last : Option (Publication Bytes)) (reason : PublicationReason)
    (earlier : List (PublicationResult Bytes)) :
    newestFresh (retainedResult last reason :: earlier) = newestFresh earlier := by
  have hstatus := retainedResult_not_fresh last reason
  rw [newestFresh, List.find?_cons_of_neg (by simpa using hstatus), newestFresh]

/-- A read retains the last publication for a reason, or gives the candidate. -/
theorem select_retained_or_fresh {candidate : Publication Bytes}
    {last : Option (Publication Bytes)} {result : PublicationResult Bytes}
    (h : selectGenerationResult py (some candidate) last none = .ok result) :
    (∃ reason, result = retainedResult last reason) ∨ result.status = .fresh := by
  unfold selectGenerationResult at h
  obtain ⟨rejection, -, h⟩ := bind_eq_ok.mp h
  cases rejection with
  | some reason => exact Or.inl ⟨reason, (Except.ok.inj h).symm⟩
  | none => exact Or.inr (Except.ok.inj h ▸ rfl)

theorem read_retained_or_fresh {getMeta getWorkflows getRuns : Except Exc Bytes}
    {last : Option (Publication Bytes)} {freshness : Option FreshnessCheck}
    {result : PublicationResult Bytes}
    (h : readGenerationResult py getMeta getWorkflows getRuns last freshness = .ok result) :
    (∃ reason, result = retainedResult last reason) ∨ result.status = .fresh := by
  unfold readGenerationResult at h
  obtain ⟨marker, -, h⟩ := bind_eq_ok.mp h
  obtain ⟨decision, hdecision, h⟩ := bind_eq_ok.mp h
  rcases checkMarker_cases hdecision with ⟨reason, rfl⟩ | ⟨data, metaJson, -, -, rfl⟩
  · exact Or.inl ⟨reason, (Except.ok.inj h).symm⟩
  · obtain ⟨workflows, -, h⟩ := bind_eq_ok.mp h
    obtain ⟨runs, -, h⟩ := bind_eq_ok.mp h
    exact select_retained_or_fresh h

/-- A read that is passed the newest fresh publication gives a proper answer. -/
theorem properAnswer_of_read {getMeta getWorkflows getRuns : Except Exc Bytes}
    {freshness : Option FreshnessCheck} {result : PublicationResult Bytes}
    {earlier : List (PublicationResult Bytes)}
    (hshowable : ∀ publication, newestFresh earlier = some publication → Showable py publication)
    (h : readGenerationResult py getMeta getWorkflows getRuns (newestFresh earlier) freshness =
      .ok result) : ProperAnswer py result earlier := by
  rcases read_retained_or_fresh h with ⟨reason, rfl⟩ | hfresh
  · refine ⟨?_, ?_, ?_, hshowable⟩
    · exact (newestFresh_retained _ reason earlier).symm
    · exact iff_of_false (retainedResult_not_fresh _ reason) (by simp [retainedResult])
    · cases newestFresh earlier <;> simp [retainedResult]
  · rcases readGenerationResult_cases h with
      hretains | ⟨marker, workflows, runs, metaJson, id, -, -, -, -, rfl, hone⟩
    · exact absurd hfresh hretains.2
    · refine ⟨(newestFresh_fresh _ earlier).symm, by simp, by simp, fun publication heq => ?_⟩
      rw [← Option.some.inj heq]
      exact showable_of_oneGeneration hone

/-- The consumer passes on the newest fresh publication, and all its answers are proper. -/
structure AnswersInv (py : Platform Bytes) (r : Reader Bytes) : Prop where
  last : r.lastComplete = newestFresh r.results
  proper : ∀ later result earlier, r.results = later ++ result :: earlier →
    ProperAnswer py result earlier

theorem AnswersInv.showable {r : Reader Bytes} (h : AnswersInv py r)
    {publication : Publication Bytes} (hnewest : newestFresh r.results = some publication) :
    Showable py publication := by
  cases hresults : r.results with
  | nil =>
      rw [hresults] at hnewest
      exact absurd hnewest (by simp [newestFresh])
  | cons result earlier =>
      have hproper := h.proper [] result earlier hresults
      rw [hresults] at hnewest
      exact hproper.showable publication (hproper.newest.trans hnewest)

theorem readerStep_answers {pfx : String} {store : ObjectStore Bytes} {r r' : Reader Bytes}
    (h : AnswersInv py r) (hstep : ReaderStep py pfx store r r') : AnswersInv py r' := by
  cases hstep with
  | getMeta outcome hidle => exact ⟨h.last, h.proper⟩
  | getWorkflows outcome hmeta => exact ⟨h.last, h.proper⟩
  | raised outcome freshness hread hresult => exact ⟨h.last, h.proper⟩
  | finish outcome freshness hread hresult =>
      rw [h.last] at hresult
      have hanswer := properAnswer_of_read (fun _ => h.showable) hresult
      refine ⟨hanswer.newest, fun later answer earlier hsplit => ?_⟩
      cases later with
      | nil =>
          obtain ⟨rfl, rfl⟩ := List.cons.inj hsplit
          exact hanswer
      | cons newest later => exact h.proper later answer earlier (List.cons.inj hsplit).2

theorem consumerReachable_answers {pfx : String} {r : Reader Bytes}
    (h : ConsumerReachable py pfx r) : AnswersInv py r := by
  induction h with
  | refl => exact ⟨rfl, fun later result earlier hsplit => absurd hsplit (by simp [Reader.start])⟩
  | tail _ hstep ih => exact readerStep_answers ih hstep.choose_spec

/-- Every answer of every run of a consumer, over objects of any content that change between its
    GETs, with GETs that fail and any freshness checks: the publication is that of the newest
    fresh answer so far; the answer is fresh exactly when it has no reason and without a
    publication exactly when it says so; and a publication is complete, has one availability per
    cluster of its sidecar, and its current rows are the decoded ones of the clusters that
    answered, in their order. -/
theorem every_answer_is_proper {pfx : String} {r : Reader Bytes}
    (h : ConsumerReachable py pfx r) {later earlier : List (PublicationResult Bytes)}
    {result : PublicationResult Bytes} (hsplit : r.results = later ++ result :: earlier) :
    ProperAnswer py result earlier :=
  (consumerReachable_answers h).proper later result earlier hsplit

/-- A whole read of a store that nobody changes meanwhile. -/
theorem ConsumerReachable.read {pfx : String} {r : Reader Bytes} (h : ConsumerReachable py pfx r)
    (hidle : r.reading = .idle) {store : ObjectStore Bytes} {freshness : Option FreshnessCheck}
    {result : PublicationResult Bytes}
    (hread : readStore py store pfx r.lastComplete freshness = .ok result) :
    ConsumerReachable py pfx ⟨.idle, result.publication, result :: r.results⟩ := by
  have hmeta := h.tail ⟨store, ReaderStep.getMeta .served hidle⟩
  have hworkflows := hmeta.tail ⟨store, ReaderStep.getWorkflows .served rfl⟩
  exact hworkflows.tail ⟨store, ReaderStep.finish .served freshness rfl hread⟩

/-- A consumer that has read what one cycle published. -/
theorem every_answer_is_proper_reference :
    ∃ (r : Reader Reference.TaggedBytes) (publication : Publication Reference.TaggedBytes),
      ConsumerReachable Reference.platform Reference.config.destPrefix r ∧
        r.results = [⟨some publication, .fresh, none⟩] ∧
        ProperAnswer Reference.platform ⟨some publication, .fresh, none⟩ [] := by
  obtain ⟨payloads, hprepare⟩ := Main.prepare_reference 0 (by decide) 'a' (by decide)
  obtain ⟨_, _, _, _, _, hcompute⟩ := (Main.prepare_eq_ready_iff _).mp hprepare
  obtain ⟨_, _, _, _, hmeta, hone⟩ :=
    Main.decode_of_compute Reference.parquetFaithful Reference.jsonFaithful hcompute
  have hread : readStore Reference.platform _ Reference.config.destPrefix none none = _ :=
    Main.readStore_writePayloads Reference.emptyStore hmeta hone none
  have hrun : ConsumerReachable Reference.platform Reference.config.destPrefix _ :=
    ConsumerReachable.read .refl rfl hread
  exact ⟨_, _, hrun, rfl, every_answer_is_proper hrun (List.nil_append _).symm⟩

end ArgoExporter.Consumer
