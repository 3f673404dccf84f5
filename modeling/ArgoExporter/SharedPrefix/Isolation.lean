/-
  ArgoExporter.SharedPrefix.Isolation

  No interleaving of exporters on one prefix makes a consumer select a mixed
  generation: the log of the PUTs that took effect explains every object that a
  GET ever returns, ids of distinct cycles are distinct, and three objects of
  one id therefore come from one cycle.
-/

import ArgoExporter.Consumer.Selection
import ArgoExporter.Main.Acceptance
import ArgoExporter.SharedPrefix

namespace ArgoExporter.SharedPrefix

open ArgoExporter.Lib.Provenance
open ArgoExporter.Py
open ArgoExporter.ParquetIo
open ArgoExporter.S3io
open ArgoExporter.Main
open ArgoExporter.Consumer

variable {Bytes : Type} (py : Platform Bytes) (pfx : String) (initial : ObjectStore Bytes)

/-! ## Ids of objects -/

/-- The generation an object names: the sidecar in its field, a file in its footer. -/
def idOf (slot : String) (data : Bytes) : Option String :=
  if slot = objectKey pfx "meta.json" then
    match py.jsonLoads data with
    | .ok metaJson => metaGenerationId metaJson
    | .error _ => none
  else footerGenerationId py (some data)

variable {py pfx}

theorem idOf_meta {data : Bytes} {metaJson : Json} (h : py.jsonLoads data = .ok metaJson) :
    idOf py pfx (objectKey pfx "meta.json") data = metaGenerationId metaJson := by
  rw [idOf, if_pos rfl, h]

theorem idOf_file {name : String} (hname : name ≠ "meta.json") (data : Bytes) :
    idOf py pfx (objectKey pfx name) data = footerGenerationId py (some data) :=
  if_neg fun h => hname (objectKey_injective pfx h)

theorem idOf_of_carriesId {name : String} {data : Bytes} {id : String}
    (h : CarriesId py name data id) (hid : id ≠ "") :
    idOf py pfx (objectKey pfx name) data = some id := by
  unfold CarriesId at h
  split_ifs at h with hname
  · obtain ⟨metaJson, hdata, hmeta⟩ := h
    rw [hname, idOf_meta hdata]
    exact metaGenerationId_eq_some.mpr ⟨hmeta, hid⟩
  · rw [idOf_file hname]
    exact footerGenerationId_eq_some.mpr ⟨data, rfl, h⟩

/-! ## Writers -/

/-- Object `o` is one of the three of a cycle with this id. -/
def Owns (cycles : List (Cycle Bytes)) (id : String) (o : String × Bytes) : Prop :=
  ∃ c ∈ cycles, c.id = id ∧ o ∈ c.payloads.objects

theorem Owns.mono {cycles cycles' : List (Cycle Bytes)} (hsub : cycles ⊆ cycles') {id : String}
    {o : String × Bytes} (h : Owns cycles id o) : Owns cycles' id o := by
  obtain ⟨c, hc, ho⟩ := h
  exact ⟨c, hsub hc, ho⟩

/-- What a process has to do belongs to its cycle, under the shared prefix. -/
structure Assigned (pfx : String) (cycles : List (Cycle Bytes)) (p : Publishing Bytes) :
    Prop where
  destPrefix : Config.normalizeS3Prefix p.destPrefix = Config.normalizeS3Prefix pfx
  todo : ∀ o ∈ p.todo, Owns cycles p.id o

variable (py pfx)

/-- The invariant of the writers. -/
structure WritersInv (w : Writers Bytes) : Prop where
  accounts : Accounts initial w.log w.store
  distinct : (w.cycles.map Cycle.id).Nodup
  new : ∀ c ∈ w.cycles, ¬ NamedAtStart py pfx initial c.id
  stamped : ∀ c ∈ w.cycles, ∀ o ∈ c.payloads.objects,
    idOf py pfx (objectKey pfx o.1) o.2 = some c.id
  assigned : ∀ process p, w.publishing process = some p → Assigned pfx w.cycles p
  logged : ∀ entry ∈ w.log, ∃ o, Owns w.cycles entry.tag o ∧ entry.slot = objectKey pfx o.1 ∧
    entry.value = o.2

variable {py pfx initial}

theorem writersInv_start : WritersInv py pfx initial (Writers.start initial) where
  accounts := accounts_initial
  distinct := List.nodup_nil
  new := by simp [Writers.start]
  stamped := by simp [Writers.start]
  assigned := by simp [Writers.start]
  logged := by simp [Writers.start]

theorem WritersInv.assign {w : Writers Bytes} (h : WritersInv py pfx initial w) (process : Nat)
    {todo : Option (Publishing Bytes)} (htodo : ∀ p, todo = some p → Assigned pfx w.cycles p) :
    WritersInv py pfx initial (w.assign process todo) :=
  { h with
    assigned := fun q p hp => by
      by_cases hq : q = process
      · subst hq
        rw [Writers.assign_self] at hp
        exact htodo p hp
      · rw [Writers.assign_of_ne _ _ hq] at hp
        exact h.assigned q p hp }

theorem WritersInv.land {w : Writers Bytes} (h : WritersInv py pfx initial w)
    {destPrefix id name : String} {data : Bytes} {todo : List (String × Bytes)}
    (hp : Assigned pfx w.cycles ⟨destPrefix, id, (name, data) :: todo⟩) :
    WritersInv py pfx initial (w.land destPrefix id name data) :=
  { h with
    accounts := by
      rw [Writers.land, ObjectStore.write_eq]
      exact h.accounts.write id (objectKey destPrefix name) data
    assigned := h.assigned
    logged := List.forall_mem_cons.mpr ⟨⟨(name, data), hp.todo _ List.mem_cons_self,
      (objectKey_eq_iff _ _ name).mpr hp.destPrefix, rfl⟩, h.logged⟩ }

/-- A new cycle joins with its three stamped objects. -/
theorem WritersInv.join {w : Writers Bytes} (h : WritersInv py pfx initial w) {c : Cycle Bytes}
    (hdistinct : ∀ d ∈ w.cycles, d.id ≠ c.id) (hnew : ¬ NamedAtStart py pfx initial c.id)
    (hstamped : ∀ o ∈ c.payloads.objects, idOf py pfx (objectKey pfx o.1) o.2 = some c.id) :
    WritersInv py pfx initial (w.join c) where
  accounts := h.accounts
  distinct := List.nodup_cons.mpr ⟨fun hmem => by
    obtain ⟨d, hd, hid⟩ := List.mem_map.mp hmem
    exact hdistinct d hd hid, h.distinct⟩
  new := List.forall_mem_cons.mpr ⟨hnew, h.new⟩
  stamped := List.forall_mem_cons.mpr ⟨hstamped, h.stamped⟩
  assigned := fun q p hp => ⟨(h.assigned q p hp).destPrefix, fun o ho =>
    ((h.assigned q p hp).todo o ho).mono (List.subset_cons_self _ _)⟩
  logged := fun entry he => by
    obtain ⟨o, ho, heq⟩ := h.logged entry he
    exact ⟨o, ho.mono (List.subset_cons_self _ _), heq⟩

theorem writerStep_inv (hpq : ParquetFaithful py) (hjson : JsonFaithful py)
    {w w' : Writers Bytes} (h : WritersInv py pfx initial w)
    (hstep : WriterStep py pfx initial w w') : WritersInv py pfx initial w' := by
  cases hstep with
  | @begin process cfg now uuid answers getRuns payloads _ hidle hpfx hprepare hdistinct hnew =>
      -- every object of a prepared cycle carries the id of the cycle
      have hstamped : ∀ o ∈ payloads.objects,
          idOf py pfx (objectKey pfx o.1) o.2 = some (generationId now uuid) := by
        intro o ho
        have hcarries := carriesId_of_prepare hpq hjson hprepare o ho
        exact idOf_of_carriesId hcarries (MetaSchema.generationId_ne_empty now uuid)
      have hjoined : WritersInv py pfx initial (w.join ⟨generationId now uuid, payloads⟩) :=
        h.join hdistinct hnew hstamped
      refine hjoined.assign process fun p hp => ?_
      rw [Option.some.injEq] at hp
      subst hp
      exact ⟨hpfx, fun o ho => ⟨_, List.mem_cons_self, rfl, ho⟩⟩
  | putServed process hnext =>
      have hp := h.assigned process _ hnext
      refine (h.land hp).assign process fun p hp' => ?_
      rw [Option.some.injEq] at hp'
      subst hp'
      exact ⟨hp.destPrefix, fun o ho => hp.todo o (List.mem_cons_of_mem _ ho)⟩
  | putFailed process landed hnext =>
      cases landed with
      | true => exact (h.land (h.assigned process _ hnext)).assign process (by simp)
      | false => exact h.assign process (by simp)
  | stop process => exact h.assign process (by simp)

/-- The records of the writers only grow. -/
theorem writerStep_grows {w w' : Writers Bytes} (hstep : WriterStep py pfx initial w w') :
    w.cycles ⊆ w'.cycles ∧ w.log ⊆ w'.log := by
  cases hstep with
  | begin => exact ⟨List.subset_cons_self _ _, List.Subset.refl _⟩
  | putServed => exact ⟨List.Subset.refl _, List.subset_cons_self _ _⟩
  | putFailed process landed =>
      cases landed with
      | true => exact ⟨List.Subset.refl _, List.subset_cons_self _ _⟩
      | false => exact ⟨List.Subset.refl _, List.Subset.refl _⟩
  | stop => exact ⟨List.Subset.refl _, List.Subset.refl _⟩

/-! ## Reads -/

variable (py pfx initial)

/-- The two files found at the start carry no generation id. -/
def Unstamped : Prop :=
  ∀ name, name = "workflows.parquet" ∨ name = "runs.parquet" →
    footerGenerationId py (initial (objectKey pfx name)) = none

/-- The publication is what a single cycle wrote, every one of its objects. -/
def WrittenByOneCycle (w : Writers Bytes) (publication : Publication Bytes) : Prop :=
  ∃ c ∈ w.cycles, py.jsonLoads c.payloads.meta = .ok publication.meta ∧
    publication.workflows = some c.payloads.workflows ∧
    publication.runs = some c.payloads.runs ∧
    ∀ o ∈ c.payloads.objects, ⟨c.id, objectKey pfx o.1, o.2⟩ ∈ w.log

variable {py pfx initial}

theorem WrittenByOneCycle.mono {w w' : Writers Bytes} (hcycles : w.cycles ⊆ w'.cycles)
    (hlog : w.log ⊆ w'.log) {publication : Publication Bytes}
    (h : WrittenByOneCycle py pfx w publication) : WrittenByOneCycle py pfx w' publication := by
  obtain ⟨c, hc, hmeta, hworkflows, hruns, hwritten⟩ := h
  exact ⟨c, hcycles hc, hmeta, hworkflows, hruns, fun o ho => hlog (hwritten o ho)⟩

section Selected

variable {w : Writers Bytes}

/-- A logged write comes from the one cycle of its id. -/
theorem WritersInv.origin {id name : String} {data : Bytes}
    (h : WritersInv py pfx initial w) (hlogged : ⟨id, objectKey pfx name, data⟩ ∈ w.log) :
    ∃ c ∈ w.cycles, c.id = id ∧ (name, data) ∈ c.payloads.objects := by
  obtain ⟨o, ⟨c, hc, hid, ho⟩, hslot, hvalue⟩ := h.logged _ hlogged
  have hname : name = o.1 := objectKey_injective pfx hslot
  have hdata : data = o.2 := hvalue
  subst hname hdata
  exact ⟨c, hc, hid, ho⟩

theorem WritersInv.cycle_unique (h : WritersInv py pfx initial w) {c d : Cycle Bytes}
    (hc : c ∈ w.cycles) (hd : d ∈ w.cycles) (hid : c.id = d.id) : c = d :=
  List.inj_on_of_nodup_map h.distinct hc hd hid

theorem WritersInv.stamped_log (h : WritersInv py pfx initial w) :
    ∀ entry ∈ w.log, idOf py pfx entry.slot entry.value = some entry.tag := by
  intro entry he
  obtain ⟨o, ⟨c, hc, hid, ho⟩, hslot, hvalue⟩ := h.logged entry he
  rw [hslot, hvalue, ← hid]
  exact h.stamped c hc o ho

/-- A file that names a generation was written by the cycle of that generation. -/
theorem WritersInv.logged_file (h : WritersInv py pfx initial w)
    (hinitial : Unstamped py pfx initial) {name : String}
    (hname : name = "workflows.parquet" ∨ name = "runs.parquet") {data : Bytes} {id : String}
    (hexplained : Explained initial w.log (objectKey pfx name) data)
    (hid : footerGenerationId py (some data) = some id) :
    ⟨id, objectKey pfx name, data⟩ ∈ w.log := by
  have hfile : name ≠ "meta.json" := by rcases hname with rfl | rfl <;> decide
  refine hexplained.logged h.stamped_log (fun hstart => ?_) ((idOf_file hfile data).trans hid)
  have hnone := hinitial name hname
  rw [hstart] at hnone
  rw [idOf_file hfile, hnone]
  simp

theorem workflows_of_mem {payloads : Payloads Bytes} {data : Bytes}
    (h : ("workflows.parquet", data) ∈ payloads.objects) : data = payloads.workflows := by
  simpa [Payloads.objects] using h

theorem runs_of_mem {payloads : Payloads Bytes} {data : Bytes}
    (h : ("runs.parquet", data) ∈ payloads.objects) : data = payloads.runs := by
  simpa [Payloads.objects] using h

theorem meta_of_mem {payloads : Payloads Bytes} {data : Bytes}
    (h : ("meta.json", data) ∈ payloads.objects) : data = payloads.meta := by
  simpa [Payloads.objects] using h

/-- Three bodies that are one generation were written by one cycle, whenever each was read. -/
theorem WritersInv.writtenByOneCycle (h : WritersInv py pfx initial w)
    (hinitial : Unstamped py pfx initial) {marker workflows runs : Bytes} {metaJson : Json}
    {id : String}
    (hmarker : Explained initial w.log (objectKey pfx "meta.json") marker)
    (hworkflows : Explained initial w.log (objectKey pfx "workflows.parquet") workflows)
    (hruns : Explained initial w.log (objectKey pfx "runs.parquet") runs)
    (hdecode : py.jsonLoads marker = .ok metaJson)
    (hone : OneGeneration py ⟨metaJson, some workflows, some runs⟩ id) :
    WrittenByOneCycle py pfx w ⟨metaJson, some workflows, some runs⟩ := by
  have hw := h.logged_file hinitial (Or.inl rfl) hworkflows hone.workflows
  have hr := h.logged_file hinitial (Or.inr rfl) hruns hone.runs
  obtain ⟨c, hc, hid, hwmem⟩ := h.origin hw
  -- the id is one of a cycle, so the marker found at the start does not name it
  have hm : ⟨id, objectKey pfx "meta.json", marker⟩ ∈ w.log := by
    have hmetaId : idOf py pfx (objectKey pfx "meta.json") marker = some id :=
      (idOf_meta hdecode).trans hone.meta
    refine hmarker.logged h.stamped_log (fun hstart _ => ?_) hmetaId
    exact h.new c hc ⟨marker, metaJson, hstart, hdecode, hid ▸ hone.meta⟩
  obtain ⟨d, hd, hdid, hrmem⟩ := h.origin hr
  obtain ⟨e, he, heid, hmmem⟩ := h.origin hm
  obtain rfl := h.cycle_unique hc hd (hid.trans hdid.symm)
  obtain rfl := h.cycle_unique hc he (hid.trans heid.symm)
  obtain rfl := workflows_of_mem hwmem
  obtain rfl := runs_of_mem hrmem
  obtain rfl := meta_of_mem hmmem
  subst hid
  refine ⟨c, hc, hdecode, rfl, rfl, fun o ho => ?_⟩
  simp only [Payloads.objects, List.mem_cons, List.not_mem_nil, or_false] at ho
  rcases ho with rfl | rfl | rfl
  · exact hw
  · exact hr
  · exact hm

end Selected

/-! ## The consumer -/

/-- A response that a GET of the object `name` may have given by now. -/
def Served (pfx : String) (initial : ObjectStore Bytes) (w : Writers Bytes) (name : String)
    (response : Except Exc Bytes) : Prop :=
  ∀ data, response = .ok data → Explained initial w.log (objectKey pfx name) data

theorem Served.mono {w w' : Writers Bytes} (hlog : w.log ⊆ w'.log) {name : String}
    {response : Except Exc Bytes} (h : Served pfx initial w name response) :
    Served pfx initial w' name response :=
  fun data hdata => (h data hdata).mono hlog

/-- What the log accounts for is all that a GET can return. -/
theorem served_of_accounts {w : Writers Bytes} (h : Accounts initial w.log w.store)
    (outcome : GetOutcome) (name : String) :
    Served pfx initial w name (getObject w.store outcome (objectKey pfx name)) :=
  fun data hdata => h (objectKey pfx name) data (getObject_eq_ok hdata)

theorem WritersInv.served {w : Writers Bytes} (h : WritersInv py pfx initial w)
    (outcome : GetOutcome) (name : String) :
    Served pfx initial w name (getObject w.store outcome (objectKey pfx name)) :=
  served_of_accounts h.accounts outcome name

/-- The bodies of a read in progress. -/
def ReadingOk (pfx : String) (initial : ObjectStore Bytes) (w : Writers Bytes) :
    Reading Bytes → Prop
  | .idle => True
  | .gotMeta getMeta => Served pfx initial w "meta.json" getMeta
  | .gotWorkflows getMeta getWorkflows =>
      Served pfx initial w "meta.json" getMeta ∧
        Served pfx initial w "workflows.parquet" getWorkflows

/-- A result that is safe to use: nothing, or what one cycle wrote; something, if it is fresh. -/
def Sound (py : Platform Bytes) (pfx : String) (w : Writers Bytes)
    (result : PublicationResult Bytes) : Prop :=
  (result.status = .fresh → ∃ publication, result.publication = some publication) ∧
    ∀ publication, result.publication = some publication →
      WrittenByOneCycle py pfx w publication

/-- The invariant of the consumer. -/
structure ReaderInv (py : Platform Bytes) (pfx : String) (initial : ObjectStore Bytes)
    (w : Writers Bytes) (r : Reader Bytes) : Prop where
  reading : ReadingOk pfx initial w r.reading
  lastComplete : ∀ publication, r.lastComplete = some publication →
    WrittenByOneCycle py pfx w publication
  results : ∀ result ∈ r.results, Sound py pfx w result

theorem ReaderInv.mono {w w' : Writers Bytes} (hcycles : w.cycles ⊆ w'.cycles)
    (hlog : w.log ⊆ w'.log) {r : Reader Bytes} (h : ReaderInv py pfx initial w r) :
    ReaderInv py pfx initial w' r where
  reading := by
    -- what was read stays explained when the log grows
    have hreading := h.reading
    cases hr : r.reading with
    | idle => trivial
    | gotMeta getMeta =>
        rw [hr] at hreading
        exact hreading.mono hlog
    | gotWorkflows getMeta getWorkflows =>
        rw [hr] at hreading
        exact ⟨hreading.1.mono hlog, hreading.2.mono hlog⟩
  lastComplete := fun publication hp => (h.lastComplete publication hp).mono hcycles hlog
  results := fun result hr => ⟨(h.results result hr).1, fun publication hp =>
    ((h.results result hr).2 publication hp).mono hcycles hlog⟩

/-- A read that ends normally has a sound result. -/
theorem sound_of_read {w : Writers Bytes} (hw : WritersInv py pfx initial w)
    (hinitial : Unstamped py pfx initial) {getMeta getWorkflows getRuns : Except Exc Bytes}
    (hmeta : Served pfx initial w "meta.json" getMeta)
    (hworkflows : Served pfx initial w "workflows.parquet" getWorkflows)
    (hruns : Served pfx initial w "runs.parquet" getRuns)
    {last : Option (Publication Bytes)}
    (hlast : ∀ publication, last = some publication → WrittenByOneCycle py pfx w publication)
    {freshness : Option FreshnessCheck} {result : PublicationResult Bytes}
    (hresult : readGenerationResult py getMeta getWorkflows getRuns last freshness = .ok result) :
    Sound py pfx w result := by
  -- a fallback returns the last publication, and a fresh result is one generation
  rcases readGenerationResult_cases hresult with ⟨hpublication, hstatus⟩ |
    ⟨marker, workflows, runs, metaJson, id, hm, hwf, hr, hdecode, rfl, hone⟩
  · exact ⟨fun hfresh => absurd hfresh hstatus,
      fun publication hp => hlast publication (hpublication.symm.trans hp)⟩
  · refine ⟨fun _ => ⟨_, rfl⟩, fun publication hp => ?_⟩
    rw [Option.some.injEq] at hp
    subst hp
    exact hw.writtenByOneCycle hinitial (hmeta marker hm) (hworkflows workflows hwf)
      (hruns runs hr) hdecode hone

theorem readerStep_inv {w : Writers Bytes} (hw : WritersInv py pfx initial w)
    (hinitial : Unstamped py pfx initial) {r r' : Reader Bytes}
    (h : ReaderInv py pfx initial w r) (hstep : ReaderStep py pfx w.store r r') :
    ReaderInv py pfx initial w r' := by
  have hreading := h.reading
  cases hstep with
  | getMeta outcome hidle => exact { h with reading := hw.served outcome "meta.json" }
  | getWorkflows outcome hmeta =>
      rw [hmeta] at hreading
      exact { h with reading := ⟨hreading, hw.served outcome "workflows.parquet"⟩ }
  | finish outcome freshness hread hresult =>
      rw [hread] at hreading
      have hsound := sound_of_read hw hinitial hreading.1 hreading.2
        (hw.served outcome "runs.parquet") h.lastComplete hresult
      exact ⟨trivial, hsound.2, List.forall_mem_cons.mpr ⟨hsound, h.results⟩⟩
  | raised outcome freshness hread hresult => exact { h with reading := trivial }

/-! ## Runs -/

structure SystemInv (py : Platform Bytes) (pfx : String) (initial : ObjectStore Bytes)
    (s : System Bytes) : Prop where
  writers : WritersInv py pfx initial s.writers
  reader : ReaderInv py pfx initial s.writers s.reader

theorem step_inv (hpq : ParquetFaithful py) (hjson : JsonFaithful py)
    (hinitial : Unstamped py pfx initial) {s s' : System Bytes}
    (h : SystemInv py pfx initial s) (hstep : Step py pfx initial s s') :
    SystemInv py pfx initial s' := by
  cases hstep with
  | writer hw =>
      obtain ⟨hcycles, hlog⟩ := writerStep_grows hw
      exact ⟨writerStep_inv hpq hjson h.writers hw, h.reader.mono hcycles hlog⟩
  | reader hr => exact ⟨h.writers, readerStep_inv h.writers hinitial h.reader hr⟩

theorem reachable_inv (hpq : ParquetFaithful py) (hjson : JsonFaithful py)
    (hinitial : Unstamped py pfx initial) {s : System Bytes}
    (h : Reachable py pfx initial s) : SystemInv py pfx initial s := by
  induction h with
  | refl => exact ⟨writersInv_start, ⟨trivial, by simp [Reader.start], by simp [Reader.start]⟩⟩
  | tail _ hstep ih => exact step_inv hpq hjson hinitial ih hstep

/-- In every run, whatever a read returns as its publication was written by a single cycle, and a
    read that reports `FRESH` returns such a publication. -/
theorem no_mixed_generation (hpq : ParquetFaithful py) (hjson : JsonFaithful py)
    (hinitial : Unstamped py pfx initial) {s : System Bytes} (h : Reachable py pfx initial s) :
    ∀ result ∈ s.reader.results, Sound py pfx s.writers result :=
  (reachable_inv hpq hjson hinitial h).reader.results

/-- The random suffix alone tells two cycles apart. -/
theorem generationId_ne :
    generationId (Reference.instant 0) (Reference.uuid 'a') ≠
      generationId (Reference.instant 61) (Reference.uuid 'b') := by
  intro h
  have hlast := congrArg (fun id => id.toList.getLast?) h
  simp only [generationId, Reference.uuid, String.toList_append, String.toList_ofList,
    List.getLast?_append] at hlast
  exact absurd hlast (by decide)

/-- Two overlapping cycles: the second publishes between the first PUT of the first and its next
    one, and is read. -/
theorem no_mixed_generation_overlapping :
    ∃ s : System Reference.TaggedBytes,
      Reachable Reference.platform Reference.config.destPrefix Reference.emptyStore s ∧
      (∃ result ∈ s.reader.results, result.status = .fresh) ∧
      ∀ result ∈ s.reader.results,
        Sound Reference.platform Reference.config.destPrefix s.writers result := by
  obtain ⟨a, ha⟩ := prepare_reference 0 (by decide) 'a' (by decide)
  obtain ⟨b, hb⟩ := prepare_reference 61 (by decide) 'b' (by decide)
  obtain ⟨rows, stored, _, _, _, hcompute⟩ := (prepare_eq_ready_iff _).mp hb
  obtain ⟨merged, _, _, _, hmeta, hone⟩ :=
    decode_of_compute Reference.parquetFaithful Reference.jsonFaithful hcompute
  have hnew (id : String) : ¬ NamedAtStart Reference.platform Reference.config.destPrefix
      Reference.emptyStore id := by
    rintro ⟨data, metaJson, hdata, _⟩
    exact absurd hdata (by simp [Reference.emptyStore])
  have hrun := Relation.ReflTransGen.refl (r := Step Reference.platform
    Reference.config.destPrefix Reference.emptyStore)
    (a := ⟨Writers.start Reference.emptyStore, Reader.start⟩)
  have hrun := hrun.tail (.writer (.begin 0 Reference.config _ _ _ .served rfl rfl ha
    (by simp [Writers.start]) (hnew _)))
  have hrun := hrun.tail (.writer (.begin 1 Reference.config _ _ _ .served rfl rfl hb
    (by
      intro c hc
      rw [List.mem_singleton.mp hc]
      exact generationId_ne) (hnew _)))
  -- the second cycle publishes while the first is at its second object
  have hrun := hrun.tail (.writer (.putServed 0 rfl))
  have hrun := hrun.tail (.writer (.putServed 1 rfl))
  have hrun := hrun.tail (.writer (.putServed 1 rfl))
  have hrun := hrun.tail (.writer (.putServed 1 rfl))
  have hrun := hrun.tail (.reader (.getMeta .served rfl))
  have hrun := hrun.tail (.reader (.getWorkflows .served rfl))
  have hrun := hrun.tail (.reader (.finish .served none rfl
    (readStore_writePayloads _ hmeta hone none)))
  exact ⟨_, hrun, ⟨_, List.mem_cons_self, rfl⟩,
    no_mixed_generation Reference.parquetFaithful Reference.jsonFaithful
      (fun _ _ => rfl) hrun⟩

end ArgoExporter.SharedPrefix
