/-
  ArgoExporter.SharedPrefix.SingleExporter

  One exporter with serial cycles and one consumer on a prefix.  A failing PUT
  has no effect and ends its cycle; a cycle may stop between two PUTs.  The
  consumer compares ids for equality only and remembers nothing but its last
  result, and still what it returns never goes back to an earlier commit.
-/

import ArgoExporter.Main.Atomicity
import ArgoExporter.SharedPrefix.Isolation
import Mathlib.Order.WithBot

namespace ArgoExporter.SharedPrefix

open ArgoExporter.Lib.Provenance
open ArgoExporter.Py
open ArgoExporter.S3io
open ArgoExporter.Main
open ArgoExporter.Consumer

variable {Bytes : Type} (py : Platform Bytes) (pfx : String) (initial : ObjectStore Bytes)

/-! ## The exporter -/

/-- The exporter is process `0`; `commits` records the objects as each PUT of the marker left them,
    oldest first.  A marker found at the start counts as a commit. -/
structure Exporter (Bytes : Type) where
  writers : Writers Bytes
  commits : List (ObjectStore Bytes)

def Exporter.start : Exporter Bytes :=
  ⟨Writers.start initial,
    if (initial (objectKey pfx "meta.json")).isSome then [initial] else []⟩

/-- Change what the exporter has to do. -/
def Exporter.assign (e : Exporter Bytes) (todo : Option (Publishing Bytes)) : Exporter Bytes :=
  { e with writers := e.writers.assign 0 todo }

/-- The PUT of an object takes effect, and commits if the object is the marker. -/
def Exporter.land (e : Exporter Bytes) (destPrefix id name : String) (data : Bytes) :
    Exporter Bytes :=
  let writers := e.writers.land destPrefix id name data
  ⟨writers, if name = "meta.json" then e.commits ++ [writers.store] else e.commits⟩

/-- One step of the exporter. -/
inductive ExporterStep : Exporter Bytes → Exporter Bytes → Prop where
  /-- The idle exporter collects, reads the ledger and gets to its publish phase. -/
  | begin {e : Exporter Bytes} (cfg : Config) (now : Stamp) (uuid : UuidHex)
      (answers : Answers cfg.clusters) (getRuns : GetOutcome) {payloads : Payloads Bytes}
      {stats : List Workflows.ClusterStat} (hidle : e.writers.publishing 0 = none)
      (hpfx : Config.normalizeS3Prefix cfg.destPrefix = Config.normalizeS3Prefix pfx)
      (hprepare : prepare py cfg now uuid answers
        (getObject e.writers.store getRuns (objectKey cfg.destPrefix "runs.parquet")) =
          .ready payloads stats) :
      ExporterStep e (Exporter.assign ⟨e.writers.join ⟨generationId now uuid, payloads⟩, e.commits⟩
        (some ⟨cfg.destPrefix, generationId now uuid, payloads.objects⟩))
  /-- The next PUT is served. -/
  | putServed {e : Exporter Bytes} {destPrefix id name : String} {data : Bytes}
      {todo : List (String × Bytes)}
      (hnext : e.writers.publishing 0 = some ⟨destPrefix, id, (name, data) :: todo⟩) :
      ExporterStep e ((e.land destPrefix id name data).assign (some ⟨destPrefix, id, todo⟩))
  /-- A PUT fails without effect, or the exporter stops publishing before or after its last PUT. -/
  | stop {e : Exporter Bytes} : ExporterStep e (e.assign none)

/-! ## The system -/

structure SingleSystem (Bytes : Type) where
  exporter : Exporter Bytes
  reader : Reader Bytes

inductive SingleStep : SingleSystem Bytes → SingleSystem Bytes → Prop where
  | exporter {s : SingleSystem Bytes} {e : Exporter Bytes}
      (h : ExporterStep py pfx s.exporter e) : SingleStep s { s with exporter := e }
  | reader {s : SingleSystem Bytes} {r : Reader Bytes}
      (h : ReaderStep py pfx s.exporter.writers.store s.reader r) :
      SingleStep s { s with reader := r }

/-- The states of any run from these objects. -/
def SingleReachable (s : SingleSystem Bytes) : Prop :=
  Relation.ReflTransGen (SingleStep py pfx) ⟨Exporter.start pfx initial, Reader.start⟩ s

/-! ## Commit indices -/

/-- The stored marker decodes to the sidecar of the publication. -/
def Marks (store : ObjectStore Bytes) (publication : Publication Bytes) : Prop :=
  ∃ data, store (objectKey pfx "meta.json") = some data ∧
    py.jsonLoads data = .ok publication.meta

/-- The publication is the three objects of the store. -/
structure Holds (store : ObjectStore Bytes) (publication : Publication Bytes) : Prop where
  marks : Marks py pfx store publication
  workflows : publication.workflows = store (objectKey pfx "workflows.parquet")
  runs : publication.runs = store (objectKey pfx "runs.parquet")

/-- The publication has the marker of commit `n`. -/
def CommittedAt (commits : List (ObjectStore Bytes)) (publication : Publication Bytes) (n : ℕ) :
    Prop :=
  ∃ store, commits[n]? = some store ∧ Marks py pfx store publication

/-- The commit index of what a read returned; no publication comes before every commit. -/
def HasIndex (commits : List (ObjectStore Bytes)) (result : PublicationResult Bytes)
    (i : WithBot ℕ) : Prop :=
  match result.publication with
  | none => i = ⊥
  | some publication => ∃ n : ℕ, i = n ∧ CommittedAt py pfx commits publication n

/-- Every cycle got a generation id of its own, one that no object found at the start names. -/
structure NewIds (w : Writers Bytes) : Prop where
  distinct : (w.cycles.map Cycle.id).Nodup
  new : ∀ c ∈ w.cycles, ∀ name data, initial (objectKey pfx name) = some data →
    idOf py pfx (objectKey pfx name) data ≠ some c.id

variable {py pfx initial}

/-! ## Steps of the exporter -/

section Fields

variable (e : Exporter Bytes) (todo : Option (Publishing Bytes))

@[simp] theorem Exporter.assign_commits : (e.assign todo).commits = e.commits := rfl

@[simp] theorem Exporter.assign_store : (e.assign todo).writers.store = e.writers.store := rfl

@[simp] theorem Exporter.assign_cycles : (e.assign todo).writers.cycles = e.writers.cycles := rfl

@[simp] theorem Exporter.assign_log : (e.assign todo).writers.log = e.writers.log := rfl

@[simp] theorem Exporter.assign_publishing : (e.assign todo).writers.publishing 0 = todo :=
  Writers.assign_self ..

end Fields

/-- Commits, cycles and the log are only added to. -/
structure Grows (e e' : Exporter Bytes) : Prop where
  commits : e.commits <+: e'.commits
  cycles : e.writers.cycles <:+ e'.writers.cycles
  log : e.writers.log ⊆ e'.writers.log

theorem exporterStep_grows {e e' : Exporter Bytes} (hstep : ExporterStep py pfx e e') :
    Grows e e' := by
  cases hstep with
  | begin =>
      exact ⟨List.prefix_refl _, List.suffix_cons _ _, List.Subset.refl _⟩
  | @putServed _ name _ _ _ hnext =>
      refine ⟨?_, List.suffix_refl _, List.subset_cons_self _ _⟩
      show e.commits <+: if _ then _ else _
      split_ifs
      · exact List.prefix_append _ _
      · exact List.prefix_refl _
  | stop => exact ⟨List.prefix_refl _, List.suffix_refl _, List.Subset.refl _⟩

theorem NewIds.of_grows {e e' : Exporter Bytes} (hgrows : Grows e e')
    (h : NewIds py pfx initial e'.writers) : NewIds py pfx initial e.writers where
  distinct := h.distinct.sublist (hgrows.cycles.sublist.map _)
  new c hc := h.new c (hgrows.cycles.subset hc)

variable (pfx initial)

/-- The invariant of the exporter: the stored marker is the one of the last commit. -/
structure ExporterInv (e : Exporter Bytes) : Prop where
  destPrefix : ∀ p, e.writers.publishing 0 = some p →
    Config.normalizeS3Prefix p.destPrefix = Config.normalizeS3Prefix pfx
  accounts : Accounts initial e.writers.log e.writers.store
  marker : ∀ data, e.writers.store (objectKey pfx "meta.json") = some data →
    ∃ store, e.commits.getLast? = some store ∧ store (objectKey pfx "meta.json") = some data

variable {pfx initial}

theorem exporterInv_start : ExporterInv pfx initial (Exporter.start pfx initial) where
  destPrefix _ hp := absurd hp (by simp [Exporter.start, Writers.start])
  accounts := accounts_initial
  marker data hdata := by
    have hstored : initial (objectKey pfx "meta.json") = some data := hdata
    refine ⟨initial, ?_, hstored⟩
    show (if (initial (objectKey pfx "meta.json")).isSome then [initial] else []).getLast? = _
    rw [hstored]
    rfl

theorem exporterStep_inv {e e' : Exporter Bytes} (h : ExporterInv pfx initial e)
    (hstep : ExporterStep py pfx e e') : ExporterInv pfx initial e' := by
  cases hstep with
  | begin cfg now uuid answers getRuns hidle hpfx hprepare =>
      refine ⟨fun p hp => ?_, h.accounts, h.marker⟩
      rw [Exporter.assign_publishing, Option.some.injEq] at hp
      rw [← hp]
      exact hpfx
  | @putServed destPrefix id name data todo hnext =>
      have hpfx := h.destPrefix _ hnext
      refine ⟨fun p hp => ?_, ?_, fun body hbody => ?_⟩
      · rw [Exporter.assign_publishing, Option.some.injEq] at hp
        rw [← hp]
        exact hpfx
      · show Accounts initial (_ :: e.writers.log) (e.writers.store.write _ data)
        rw [ObjectStore.write_eq]
        exact h.accounts.write id _ data
      · show ∃ store, (if name = "meta.json" then _ else e.commits).getLast? = some store ∧ _
        have hbody : e.writers.store.write (objectKey destPrefix name) data
          (objectKey pfx "meta.json") = some body := hbody
        -- a PUT of the marker is the commit
        by_cases hname : name = "meta.json"
        · rw [if_pos hname, List.getLast?_concat]
          exact ⟨_, rfl, hbody⟩
        · -- a PUT of another object leaves the marker
          rw [(objectKey_eq_iff _ _ _).mpr hpfx, ObjectStore.write_ne _ _
            (fun hkey => hname (objectKey_injective pfx hkey).symm)] at hbody
          rw [if_neg hname]
          exact h.marker body hbody
  | stop =>
      refine ⟨fun p hp => ?_, h.accounts, h.marker⟩
      rw [Exporter.assign_publishing] at hp
      exact absurd hp (by simp)

/-! ## Indices along a run -/

theorem getElem?_of_prefix {commits commits' : List (ObjectStore Bytes)}
    (hgrows : commits <+: commits') {n : ℕ} {store : ObjectStore Bytes}
    (h : commits[n]? = some store) : commits'[n]? = some store := by
  obtain ⟨later, rfl⟩ := hgrows
  obtain ⟨hlt, _⟩ := List.getElem?_eq_some_iff.mp h
  rw [List.getElem?_append_left hlt, h]

theorem CommittedAt.mono {commits commits' : List (ObjectStore Bytes)}
    (hgrows : commits <+: commits') {publication : Publication Bytes} {n : ℕ}
    (h : CommittedAt py pfx commits publication n) :
    CommittedAt py pfx commits' publication n := by
  obtain ⟨store, hstore, hmarks⟩ := h
  exact ⟨store, getElem?_of_prefix hgrows hstore, hmarks⟩

theorem HasIndex.mono {commits commits' : List (ObjectStore Bytes)}
    (hgrows : commits <+: commits') {result : PublicationResult Bytes} {i : WithBot ℕ}
    (h : HasIndex py pfx commits result i) : HasIndex py pfx commits' result i := by
  unfold HasIndex at h ⊢
  cases hp : result.publication with
  | none =>
      rw [hp] at h
      exact h
  | some publication =>
      rw [hp] at h
      obtain ⟨n, hi, hn⟩ := h
      exact ⟨n, hi, hn.mono hgrows⟩

/-- An index is that of a commit that has happened. -/
theorem HasIndex.le_last {commits : List (ObjectStore Bytes)} {result : PublicationResult Bytes}
    {i : WithBot ℕ} (h : HasIndex py pfx commits result i) : i ≤ (commits.length - 1 : ℕ) := by
  unfold HasIndex at h
  cases hp : result.publication with
  | none =>
      rw [hp] at h
      rw [show i = ⊥ from h]
      exact bot_le
  | some publication =>
      rw [hp] at h
      obtain ⟨n, rfl, store, hstore, _⟩ := h
      obtain ⟨hlt, _⟩ := List.getElem?_eq_some_iff.mp hstore
      have hle : n ≤ commits.length - 1 := by omega
      exact WithBot.coe_le_coe.mpr hle

theorem indices_le_last {commits : List (ObjectStore Bytes)}
    {results : List (PublicationResult Bytes)} {indices : List (WithBot ℕ)}
    (h : List.Forall₂ (HasIndex py pfx commits) results indices) :
    ∀ i ∈ indices, i ≤ (commits.length - 1 : ℕ) := by
  induction h with
  | nil => simp
  | cons hindex _ ih => exact List.forall_mem_cons.mpr ⟨hindex.le_last, ih⟩

/-- The GET that a read in progress started with. -/
def Reading.marker : Reading Bytes → Option (Except Exc Bytes)
  | .idle => none
  | .gotMeta getMeta => some getMeta
  | .gotWorkflows getMeta _ => some getMeta

/-- A marker that was read is that of a commit no earlier than any with these indices. -/
def ReadAfter (pfx : String) (commits : List (ObjectStore Bytes)) (indices : List (WithBot ℕ))
    (response : Except Exc Bytes) : Prop :=
  ∀ data, response = .ok data → ∃ (n : ℕ) (store : ObjectStore Bytes), commits[n]? = some store ∧
    store (objectKey pfx "meta.json") = some data ∧ ∀ i ∈ indices, i ≤ n

/-- The results so far, newest first, with their commit indices. -/
structure Timeline (py : Platform Bytes) (pfx : String) (commits : List (ObjectStore Bytes))
    (r : Reader Bytes) (indices : List (WithBot ℕ)) : Prop where
  results : List.Forall₂ (HasIndex py pfx commits) r.results indices
  descending : indices.Pairwise (· ≥ ·)
  last : r.lastComplete = r.results.head?.bind PublicationResult.publication
  reading : ∀ getMeta, r.reading.marker = some getMeta → ReadAfter pfx commits indices getMeta

theorem timeline_start (commits : List (ObjectStore Bytes)) :
    Timeline py pfx commits Reader.start [] where
  results := .nil
  descending := .nil
  last := rfl
  reading _ h := absurd h (by simp [Reader.start, Reading.marker])

theorem Timeline.mono {commits commits' : List (ObjectStore Bytes)}
    (hgrows : commits <+: commits') {r : Reader Bytes} {indices : List (WithBot ℕ)}
    (h : Timeline py pfx commits r indices) : Timeline py pfx commits' r indices where
  results := h.results.imp fun _ _ hindex => hindex.mono hgrows
  descending := h.descending
  last := h.last
  reading getMeta hmarker data hdata := by
    obtain ⟨n, store, hstore, hfound, hle⟩ := h.reading getMeta hmarker data hdata
    exact ⟨n, store, getElem?_of_prefix hgrows hstore, hfound, hle⟩

/-- The marker of a GET belongs to the last commit. -/
theorem ExporterInv.readAfter {e : Exporter Bytes} (he : ExporterInv pfx initial e)
    {r : Reader Bytes} {indices : List (WithBot ℕ)} (h : Timeline py pfx e.commits r indices)
    (outcome : GetOutcome) : ReadAfter pfx e.commits indices
      (getObject e.writers.store outcome (key pfx "meta.json")) := by
  intro data hdata
  obtain ⟨store, hlast, hstore⟩ := he.marker data (getObject_eq_ok hdata)
  refine ⟨e.commits.length - 1, store, ?_, hstore, fun i hi => ?_⟩
  · rw [← List.getLast?_eq_getElem?, hlast]
  · exact indices_le_last h.results i hi

/-- A fallback keeps the newest index. -/
theorem Timeline.retained {commits : List (ObjectStore Bytes)} {r : Reader Bytes}
    {indices : List (WithBot ℕ)} (h : Timeline py pfx commits r indices)
    {result : PublicationResult Bytes} (hretained : result.publication = r.lastComplete) :
    ∃ i, HasIndex py pfx commits result i ∧ ∀ j ∈ indices, j ≤ i := by
  have hresults := h.results
  have hdescending := h.descending
  rw [h.last] at hretained
  generalize r.results = results at hresults hretained
  cases hresults with
  -- with no result so far nothing can be retained
  | nil => exact ⟨⊥, by rw [HasIndex, hretained]; rfl, by simp⟩
  | @cons newest i _ indices hindex _ =>
      have hsame : result.publication = newest.publication := hretained
      refine ⟨i, ?_, List.forall_mem_cons.mpr ⟨le_refl i, fun j hj => ?_⟩⟩
      · rw [HasIndex, hsame]
        exact hindex
      · exact List.rel_of_pairwise_cons hdescending hj

theorem readerStep_timeline {e : Exporter Bytes} (he : ExporterInv pfx initial e)
    {r r' : Reader Bytes} {indices : List (WithBot ℕ)}
    (h : Timeline py pfx e.commits r indices)
    (hstep : ReaderStep py pfx e.writers.store r r') :
    ∃ indices', Timeline py pfx e.commits r' indices' := by
  cases hstep with
  | getMeta outcome hidle =>
      refine ⟨indices, h.results, h.descending, h.last, fun getMeta hmarker => ?_⟩
      rw [Reading.marker, Option.some.injEq] at hmarker
      rw [← hmarker]
      exact he.readAfter h outcome
  | @getWorkflows getMeta outcome hmeta =>
      refine ⟨indices, h.results, h.descending, h.last, fun getMeta' hmarker => ?_⟩
      rw [Reading.marker, Option.some.injEq] at hmarker
      exact h.reading getMeta' (by rw [hmeta, Reading.marker, hmarker])
  | @finish getMeta getWorkflows outcome freshness result hread hresult =>
      have hreading := h.reading getMeta (by rw [hread]; rfl)
      have hnext : ∃ i, HasIndex py pfx e.commits result i ∧ ∀ j ∈ indices, j ≤ i := by
        rcases readGenerationResult_cases hresult with ⟨hretained, _⟩ |
          ⟨marker, workflows, runs, metaJson, id, hmarker, _, _, hdecode, rfl, _⟩
        · exact h.retained hretained
        · -- a fresh result has the index of the marker its read started with
          obtain ⟨n, store, hstore, hfound, hle⟩ := hreading marker hmarker
          exact ⟨n, ⟨n, rfl, store, hstore, marker, hfound, hdecode⟩, hle⟩
      obtain ⟨i, hindex, hle⟩ := hnext
      exact ⟨i :: indices, .cons hindex h.results, List.pairwise_cons.mpr ⟨hle, h.descending⟩, rfl,
        fun _ hmarker => absurd hmarker (by simp [Reading.marker])⟩
  | raised outcome freshness hread hresult =>
      exact ⟨indices, h.results, h.descending, h.last,
        fun _ hmarker => absurd hmarker (by simp [Reading.marker])⟩

/-! ## Whole commits -/

variable (py pfx initial)

/-- The generation that the stored marker names. -/
def markerId (store : ObjectStore Bytes) : Option String :=
  (store (objectKey pfx "meta.json")).bind (idOf py pfx (objectKey pfx "meta.json"))

/-- The store has the three objects of a cycle. -/
def HasObjects (store : ObjectStore Bytes) (objects : List (String × Bytes)) : Prop :=
  ∀ o ∈ objects, store (objectKey pfx o.1) = some o.2

/-- The cycle being published: what it has done is stored, and while it has PUTs left no commit is
    its own. -/
def UnderWay (e : Exporter Bytes) (p : Publishing Bytes) : Prop :=
  ∃ c ∈ e.writers.cycles, c.id = p.id ∧ ∃ done, done ++ p.todo = c.payloads.objects ∧
    HasObjects pfx e.writers.store done ∧
    (p.todo ≠ [] → ∀ store ∈ e.commits, markerId py pfx store ≠ some c.id)

/-- The invariant of the commits: each is the start or the three objects of one cycle, and they have
    markers of their own. -/
structure CommitsInv (e : Exporter Bytes) : Prop where
  writers : WritersInv py pfx initial e.writers
  underWay : ∀ p, e.writers.publishing 0 = some p → UnderWay py pfx e p
  commits : ∀ store ∈ e.commits, store = initial ∨
    ∃ c ∈ e.writers.cycles, HasObjects pfx store c.payloads.objects
  markers : (e.commits.map (markerId py pfx)).Nodup

variable {py pfx initial}

theorem NewIds.not_named {w : Writers Bytes} (h : NewIds py pfx initial w) {c : Cycle Bytes}
    (hc : c ∈ w.cycles) : ¬ NamedAtStart py pfx initial c.id := by
  rintro ⟨data, metaJson, hdata, hdecode, hid⟩
  exact h.new c hc "meta.json" data hdata ((idOf_meta hdecode).trans hid)

theorem WritersInv.markerId_of_objects {w : Writers Bytes} (h : WritersInv py pfx initial w)
    {c : Cycle Bytes} (hc : c ∈ w.cycles) {store : ObjectStore Bytes}
    (hstore : HasObjects pfx store c.payloads.objects) : markerId py pfx store = some c.id := by
  have hmem : ("meta.json", c.payloads.meta) ∈ c.payloads.objects := by simp [Payloads.objects]
  rw [markerId, hstore _ hmem, Option.bind_some]
  exact h.stamped c hc _ hmem

/-- The marker is the last object of a cycle, and no name comes twice. -/
theorem objects_split {payloads : Payloads Bytes} {done todo : List (String × Bytes)}
    {o : String × Bytes} (h : done ++ o :: todo = payloads.objects) :
    (∀ o' ∈ done, o'.1 ≠ o.1) ∧ (o.1 = "meta.json" ↔ todo = []) := by
  have hnames : (done.map Prod.fst) ++ o.1 :: todo.map Prod.fst = publicationObjects := by
    rw [← payloads.objects_names, ← h, List.map_append, List.map_cons]
  have hnodup : ((done.map Prod.fst) ++ o.1 :: todo.map Prod.fst).Nodup := by
    rw [hnames]
    decide
  have hlast : ((done.map Prod.fst) ++ o.1 :: todo.map Prod.fst).getLast? = some "meta.json" := by
    rw [hnames]
    rfl
  constructor
  · intro o' ho' hname
    exact (List.disjoint_of_nodup_append hnodup) (List.mem_map_of_mem (f := Prod.fst) ho')
      (hname ▸ List.mem_cons_self)
  -- the marker is the last object, and its name does not occur before
  · cases todo with
    | nil =>
        rw [List.map_nil, List.getLast?_concat, Option.some.injEq] at hlast
        exact ⟨fun _ => rfl, fun _ => hlast⟩
    | cons t todo =>
        have htail : "meta.json" ∈ (t :: todo).map Prod.fst := by
          rw [List.getLast?_append, List.map_cons, List.getLast?_cons_cons,
            Option.or_of_isSome (by simp)] at hlast
          exact List.mem_of_getLast? hlast
        have hfresh := (List.nodup_cons.mp hnodup.of_append_right).1
        exact ⟨fun hname => absurd (hname ▸ htail) hfresh, fun hnil => absurd hnil (by simp)⟩

theorem commitsInv_start : CommitsInv py pfx initial (Exporter.start pfx initial) where
  writers := writersInv_start
  underWay _ hp := absurd hp (by simp [Exporter.start, Writers.start])
  commits store hstore := by
    unfold Exporter.start at hstore
    dsimp only at hstore
    split_ifs at hstore
    · exact Or.inl (List.mem_singleton.mp hstore)
    · exact absurd hstore (by simp)
  markers := by
    unfold Exporter.start
    dsimp only
    split_ifs
    · exact List.nodup_singleton _
    · exact List.nodup_nil

/-- A new cycle is under way, with all of its PUTs to make and no commit. -/
theorem CommitsInv.begin {e : Exporter Bytes} (h : CommitsInv py pfx initial e) {c : Cycle Bytes}
    (hnew : NewIds py pfx initial (e.writers.join c)) {store : ObjectStore Bytes}
    (hstore : store ∈ e.commits) : markerId py pfx store ≠ some c.id := by
  have hmem : c ∈ (e.writers.join c).cycles := List.mem_cons_self
  rcases h.commits store hstore with rfl | ⟨d, hd, hobjects⟩
  · intro hid
    obtain ⟨data, hdata, hnamed⟩ := Option.bind_eq_some_iff.mp hid
    exact hnew.new c hmem "meta.json" data hdata hnamed
  · rw [h.writers.markerId_of_objects hd hobjects, ne_eq, Option.some.injEq]
    intro hid
    exact (List.nodup_cons.mp hnew.distinct).1 (hid ▸ List.mem_map_of_mem (f := Cycle.id) hd)

/-- After a PUT its object is stored beside those of the PUTs before. -/
theorem HasObjects.write {store : ObjectStore Bytes} {done : List (String × Bytes)}
    (h : HasObjects pfx store done) {o : String × Bytes} (hfresh : ∀ o' ∈ done, o'.1 ≠ o.1) :
    HasObjects pfx (store.write (objectKey pfx o.1) o.2) (done ++ [o]) := by
  intro o' ho'
  rcases List.mem_append.mp ho' with ho' | ho'
  · rw [ObjectStore.write_ne _ _ fun hkey => hfresh o' ho' (objectKey_injective pfx hkey)]
    exact h o' ho'
  · rw [List.mem_singleton.mp ho', ObjectStore.write_self]

/-- A PUT of the cycle under way; the last one makes a commit of its three objects. -/
theorem CommitsInv.put {e : Exporter Bytes} (h : CommitsInv py pfx initial e)
    {destPrefix id name : String} {data : Bytes} {todo : List (String × Bytes)}
    (hnext : e.writers.publishing 0 = some ⟨destPrefix, id, (name, data) :: todo⟩)
    (hpfx : Config.normalizeS3Prefix destPrefix = Config.normalizeS3Prefix pfx)
    (hwriters : WritersInv py pfx initial
      ((e.land destPrefix id name data).assign (some ⟨destPrefix, id, todo⟩)).writers) :
    CommitsInv py pfx initial
      ((e.land destPrefix id name data).assign (some ⟨destPrefix, id, todo⟩)) := by
  obtain ⟨c, hc, hid, done, hsplit, hdone, hcommitted⟩ := h.underWay _ hnext
  obtain ⟨hfresh, hlast⟩ := objects_split hsplit
  have hstored : HasObjects pfx (e.land destPrefix id name data).writers.store
      (done ++ [(name, data)]) := by
    show HasObjects pfx (e.writers.store.write (objectKey destPrefix name) data) _
    rw [(objectKey_eq_iff _ _ _).mpr hpfx]
    exact hdone.write hfresh
  have hrest : (done ++ [(name, data)]) ++ todo = c.payloads.objects := by
    rw [List.append_assoc]
    exact hsplit
  -- the marker commits the store, any other object commits nothing
  by_cases hname : name = "meta.json"
  · have htodo : todo = [] := hlast.mp hname
    have hcommits : ((e.land destPrefix id name data).assign
        (some ⟨destPrefix, id, todo⟩)).commits =
          e.commits ++ [(e.land destPrefix id name data).writers.store] := if_pos hname
    have hall : HasObjects pfx (e.land destPrefix id name data).writers.store
        c.payloads.objects := by
      rw [htodo, List.append_nil] at hrest
      rwa [hrest] at hstored
    refine ⟨hwriters, fun p hp => ?_, fun store hstore => ?_, ?_⟩
    · rw [Exporter.assign_publishing, Option.some.injEq] at hp
      subst hp
      exact ⟨c, hc, hid, _, hrest, hstored, fun hne => absurd htodo hne⟩
    · rw [hcommits] at hstore
      rcases List.mem_append.mp hstore with hstore | hstore
      · exact h.commits store hstore
      · rw [List.mem_singleton.mp hstore]
        exact Or.inr ⟨c, hc, hall⟩
    · have hmarker := hwriters.markerId_of_objects hc hall
      rw [hcommits, List.map_append, List.map_singleton, hmarker]
      refine h.markers.append (List.nodup_singleton _) ?_
      rw [List.disjoint_singleton]
      intro hmem
      obtain ⟨store, hstore, heq⟩ := List.mem_map.mp hmem
      exact hcommitted (List.cons_ne_nil _ _) store hstore heq
  · have hcommits : ((e.land destPrefix id name data).assign
        (some ⟨destPrefix, id, todo⟩)).commits = e.commits := if_neg hname
    refine ⟨hwriters, fun p hp => ?_, fun store hstore => ?_, ?_⟩
    · rw [Exporter.assign_publishing, Option.some.injEq] at hp
      subst hp
      refine ⟨c, hc, hid, _, hrest, hstored, fun _ store hstore => ?_⟩
      rw [hcommits] at hstore
      exact hcommitted (List.cons_ne_nil _ _) store hstore
    · rw [hcommits] at hstore
      exact h.commits store hstore
    · rw [hcommits]
      exact h.markers

theorem exporterStep_commits (hpq : ParquetIo.ParquetFaithful py) (hjson : JsonFaithful py)
    {e e' : Exporter Bytes} (he : ExporterInv pfx initial e) (h : CommitsInv py pfx initial e)
    (hnew : NewIds py pfx initial e'.writers) (hstep : ExporterStep py pfx e e') :
    CommitsInv py pfx initial e' := by
  cases hstep with
  | @begin cfg now uuid answers getRuns payloads stats hidle hpfx hprepare =>
      have hjoined : NewIds py pfx initial (e.writers.join ⟨generationId now uuid, payloads⟩) :=
        ⟨hnew.distinct, hnew.new⟩
      -- the id of the new cycle is not the id of an earlier one
      have hfresh := (List.nodup_cons.mp hjoined.distinct).1
      have hwriters := writerStep_inv hpq hjson h.writers
        (.begin 0 cfg now uuid answers getRuns hidle hpfx hprepare
          (fun d hd hid => hfresh (List.mem_map.mpr ⟨d, hd, hid⟩))
          (hjoined.not_named List.mem_cons_self))
      refine ⟨hwriters, fun p hp => ?_, fun store hstore => ?_, h.markers⟩
      · rw [Exporter.assign_publishing, Option.some.injEq] at hp
        subst hp
        exact ⟨_, List.mem_cons_self, rfl, [], rfl, by simp [HasObjects],
          fun _ store hstore => h.begin hjoined hstore⟩
      · rcases h.commits store hstore with hstart | ⟨d, hd, hobjects⟩
        · exact Or.inl hstart
        · exact Or.inr ⟨d, List.mem_cons_of_mem _ hd, hobjects⟩
  | putServed hnext =>
      have hpfx := he.destPrefix _ hnext
      exact h.put hnext hpfx (writerStep_inv hpq hjson h.writers (.putServed 0 hnext))
  | stop =>
      refine ⟨h.writers.assign 0 (by simp), fun p hp => ?_, h.commits, h.markers⟩
      rw [Exporter.assign_publishing] at hp
      exact absurd hp (by simp)

/-! ## Whole publications -/

/-- A file that names the generation of a commit's marker is that commit's file. -/
theorem CommitsInv.file_of_commit {e : Exporter Bytes} (h : CommitsInv py pfx initial e)
    (hnew : NewIds py pfx initial e.writers) {store : ObjectStore Bytes} (hstore : store ∈ e.commits)
    {id : String} (hmarker : markerId py pfx store = some id) {name : String}
    (hname : name = "workflows.parquet" ∨ name = "runs.parquet") {data : Bytes}
    (hexplained : Explained initial e.writers.log (objectKey pfx name) data)
    (hid : footerGenerationId py (some data) = some id) :
    store (objectKey pfx name) = some data := by
  have hfile : name ≠ "meta.json" := by rcases hname with rfl | rfl <;> decide
  have hnamed : idOf py pfx (objectKey pfx name) data = some id := (idOf_file hfile data).trans hid
  rcases h.commits store hstore with rfl | ⟨c, hc, hobjects⟩
  · -- the marker is the one found at the start, so no cycle has its id
    rcases hexplained with hstart | ⟨tag, hlogged⟩
    · exact hstart
    · obtain ⟨c, hc, hcid, _⟩ := h.writers.origin hlogged
      have htag : tag = id := Option.some.inj ((h.writers.stamped_log _ hlogged).symm.trans hnamed)
      obtain ⟨body, hbody, hbodyId⟩ := Option.bind_eq_some_iff.mp hmarker
      rw [← htag, ← hcid] at hbodyId
      exact absurd hbodyId (hnew.new c hc "meta.json" body hbody)
  · have hcid : c.id = id :=
      Option.some.inj ((h.writers.markerId_of_objects hc hobjects).symm.trans hmarker)
    have hlogged := hexplained.logged h.writers.stamped_log
      (fun hstart => hcid ▸ hnew.new c hc name data hstart) hnamed
    obtain ⟨d, hd, hdid, hmem⟩ := h.writers.origin hlogged
    obtain rfl := h.writers.cycle_unique hc hd (hcid.trans hdid.symm)
    exact hobjects _ hmem

/-- No two commits have one marker, so an index is determined by the publication. -/
theorem CommitsInv.index_unique {e : Exporter Bytes} (h : CommitsInv py pfx initial e)
    {publication : Publication Bytes} {n m : ℕ} (hn : CommittedAt py pfx e.commits publication n)
    (hm : CommittedAt py pfx e.commits publication m) : m = n := by
  have hmarker : ∀ {k : ℕ}, CommittedAt py pfx e.commits publication k →
      (e.commits.map (markerId py pfx))[k]? = some (metaGenerationId publication.meta) := by
    rintro k ⟨store, hstore, data, hdata, hdecode⟩
    rw [List.getElem?_map, hstore, Option.map_some, markerId, hdata, Option.bind_some,
      idOf_meta hdecode]
  obtain ⟨hlt, hn'⟩ := List.getElem?_eq_some_iff.mp (hmarker hn)
  obtain ⟨hlt', hm'⟩ := List.getElem?_eq_some_iff.mp (hmarker hm)
  exact (h.markers.getElem_inj_iff).mp (hm'.trans hn'.symm)

/-- What a read returned is the objects that some commit left. -/
def FromCommit (py : Platform Bytes) (pfx : String) (commits : List (ObjectStore Bytes))
    (publication : Publication Bytes) : Prop :=
  ∃ (n : ℕ) (store : ObjectStore Bytes), commits[n]? = some store ∧ Holds py pfx store publication

theorem FromCommit.mono {commits commits' : List (ObjectStore Bytes)}
    (hgrows : commits <+: commits') {publication : Publication Bytes}
    (h : FromCommit py pfx commits publication) : FromCommit py pfx commits' publication := by
  obtain ⟨n, store, hstore, hholds⟩ := h
  exact ⟨n, store, getElem?_of_prefix hgrows hstore, hholds⟩

/-- The invariant of the consumer, beside its timeline. -/
structure ConsumerInv (py : Platform Bytes) (pfx : String) (initial : ObjectStore Bytes)
    (e : Exporter Bytes) (r : Reader Bytes) : Prop where
  workflows : ∀ getMeta getWorkflows, r.reading = .gotWorkflows getMeta getWorkflows →
    Served pfx initial e.writers "workflows.parquet" getWorkflows
  results : NewIds py pfx initial e.writers → ∀ result ∈ r.results, ∀ publication,
    result.publication = some publication → FromCommit py pfx e.commits publication

theorem consumerInv_start (e : Exporter Bytes) : ConsumerInv py pfx initial e Reader.start where
  workflows _ _ h := absurd h (by simp [Reader.start])
  results _ _ h := absurd h (by simp [Reader.start])

theorem ConsumerInv.mono {e e' : Exporter Bytes} (hgrows : Grows e e') {r : Reader Bytes}
    (h : ConsumerInv py pfx initial e r) : ConsumerInv py pfx initial e' r where
  workflows getMeta getWorkflows hread := (h.workflows getMeta getWorkflows hread).mono hgrows.log
  results hnew result hresult publication hp :=
    (h.results (hnew.of_grows hgrows) result hresult publication hp).mono hgrows.commits

/-- A fresh read returns the objects of the commit whose marker it started with. -/
theorem CommitsInv.fromCommit {e : Exporter Bytes} (h : CommitsInv py pfx initial e)
    (hnew : NewIds py pfx initial e.writers) {indices : List (WithBot ℕ)}
    {getMeta getWorkflows getRuns : Except Exc Bytes} {marker workflows runs : Bytes}
    {metaJson : Json} {id : String} (hread : ReadAfter pfx e.commits indices getMeta)
    (hworkflows : Served pfx initial e.writers "workflows.parquet" getWorkflows)
    (hruns : Served pfx initial e.writers "runs.parquet" getRuns)
    (hm : getMeta = .ok marker) (hw : getWorkflows = .ok workflows) (hr : getRuns = .ok runs)
    (hdecode : py.jsonLoads marker = .ok metaJson)
    (hone : OneGeneration py ⟨metaJson, some workflows, some runs⟩ id) :
    FromCommit py pfx e.commits ⟨metaJson, some workflows, some runs⟩ := by
  obtain ⟨n, store, hstore, hfound, _⟩ := hread marker hm
  have hmem : store ∈ e.commits := List.mem_of_getElem? hstore
  -- the marker that was read names the commit
  have hmarker : markerId py pfx store = some id := by
    rw [markerId, hfound, Option.bind_some, idOf_meta hdecode]
    exact hone.meta
  refine ⟨n, store, hstore, ⟨marker, hfound, hdecode⟩, ?_, ?_⟩
  · exact (h.file_of_commit hnew hmem hmarker (Or.inl rfl) (hworkflows _ hw) hone.workflows).symm
  · exact (h.file_of_commit hnew hmem hmarker (Or.inr rfl) (hruns _ hr) hone.runs).symm

theorem readerStep_consumer {e : Exporter Bytes} (he : ExporterInv pfx initial e)
    (hcommits : NewIds py pfx initial e.writers → CommitsInv py pfx initial e)
    {r r' : Reader Bytes} {indices : List (WithBot ℕ)}
    (htimeline : Timeline py pfx e.commits r indices) (h : ConsumerInv py pfx initial e r)
    (hstep : ReaderStep py pfx e.writers.store r r') : ConsumerInv py pfx initial e r' := by
  cases hstep with
  | getMeta outcome hidle => exact ⟨fun _ _ hread => absurd hread (by simp), h.results⟩
  | getWorkflows outcome hmeta =>
      refine ⟨fun _ _ hread => ?_, h.results⟩
      rw [← (Reading.gotWorkflows.inj hread).2]
      exact served_of_accounts he.accounts outcome "workflows.parquet"
  | @finish getMeta getWorkflows outcome freshness result hread hresult =>
      refine ⟨fun _ _ hread => absurd hread (by simp), fun hnew => ?_⟩
      refine List.forall_mem_cons.mpr ⟨fun publication hp => ?_, h.results hnew⟩
      rcases readGenerationResult_cases hresult with ⟨hretained, _⟩ |
        ⟨marker, workflows, runs, metaJson, id, hm, hw, hr, hdecode, rfl, hone⟩
      · -- a fallback returns what the newest result had
        rw [hretained, htimeline.last] at hp
        obtain ⟨newest, hnewest, hp⟩ := Option.bind_eq_some_iff.mp hp
        exact h.results hnew newest (List.mem_of_head? hnewest) publication hp
      · rw [Option.some.injEq] at hp
        subst hp
        exact (hcommits hnew).fromCommit hnew (htimeline.reading getMeta (by rw [hread]; rfl))
          (h.workflows _ _ hread) (served_of_accounts he.accounts outcome "runs.parquet")
          hm hw hr hdecode hone
  | raised outcome freshness hread hresult =>
      exact ⟨fun _ _ hread => absurd hread (by simp), h.results⟩

/-! ## Runs -/

structure SingleInv (py : Platform Bytes) (pfx : String) (initial : ObjectStore Bytes)
    (s : SingleSystem Bytes) : Prop where
  exporter : ExporterInv pfx initial s.exporter
  commits : NewIds py pfx initial s.exporter.writers → CommitsInv py pfx initial s.exporter
  timeline : ∃ indices, Timeline py pfx s.exporter.commits s.reader indices
  consumer : ConsumerInv py pfx initial s.exporter s.reader

theorem singleStep_inv (hpq : ParquetIo.ParquetFaithful py) (hjson : JsonFaithful py)
    {s s' : SingleSystem Bytes} (h : SingleInv py pfx initial s)
    (hstep : SingleStep py pfx s s') : SingleInv py pfx initial s' := by
  obtain ⟨indices, htimeline⟩ := h.timeline
  cases hstep with
  | exporter he =>
      have hgrows := exporterStep_grows he
      refine ⟨exporterStep_inv h.exporter he, fun hnew => ?_, ⟨indices, ?_⟩, ?_⟩
      · exact exporterStep_commits hpq hjson h.exporter (h.commits (hnew.of_grows hgrows)) hnew he
      · exact htimeline.mono hgrows.commits
      · exact h.consumer.mono hgrows
  | reader hr =>
      exact ⟨h.exporter, h.commits, readerStep_timeline h.exporter htimeline hr,
        readerStep_consumer h.exporter h.commits htimeline h.consumer hr⟩

theorem singleReachable_inv (hpq : ParquetIo.ParquetFaithful py) (hjson : JsonFaithful py)
    {s : SingleSystem Bytes} (h : SingleReachable py pfx initial s) :
    SingleInv py pfx initial s := by
  induction h with
  | refl =>
      exact ⟨exporterInv_start, fun _ => commitsInv_start, ⟨[], timeline_start _⟩,
        consumerInv_start _⟩
  | tail _ hstep ih => exact singleStep_inv hpq hjson ih hstep

/-- In every run the results of the reads, newest first, have commit indices that never increase;
    and when the cycles have new ids, what a read returns is the three objects of one commit, and
    no other index fits it. -/
theorem consumer_never_goes_back (hpq : ParquetIo.ParquetFaithful py) (hjson : JsonFaithful py)
    {s : SingleSystem Bytes} (h : SingleReachable py pfx initial s) :
    ∃ indices : List (WithBot ℕ),
      List.Forall₂ (HasIndex py pfx s.exporter.commits) s.reader.results indices ∧
      indices.Pairwise (· ≥ ·) ∧
      (NewIds py pfx initial s.exporter.writers → ∀ result ∈ s.reader.results, ∀ publication,
        result.publication = some publication →
          ∃ (n : ℕ) (store : ObjectStore Bytes), s.exporter.commits[n]? = some store ∧
            Holds py pfx store publication ∧
            ∀ m, CommittedAt py pfx s.exporter.commits publication m → m = n) := by
  have hinv := singleReachable_inv hpq hjson h
  obtain ⟨indices, htimeline⟩ := hinv.timeline
  refine ⟨indices, htimeline.results, htimeline.descending, fun hnew result hresult publication hp => ?_⟩
  obtain ⟨n, store, hstore, hholds⟩ := hinv.consumer.results hnew result hresult publication hp
  refine ⟨n, store, hstore, hholds, fun m hm => ?_⟩
  exact (hinv.commits hnew).index_unique ⟨store, hstore, hholds.marks⟩ hm

/-- A read that finds no marker, and then one that finds the first commit. -/
theorem consumer_never_goes_back_reference :
    ∃ s : SingleSystem Reference.TaggedBytes,
      SingleReachable Reference.platform Reference.config.destPrefix Reference.emptyStore s ∧
      s.reader.results.map PublicationResult.status = [.fresh, .noPublication] ∧
      ∃ indices : List (WithBot ℕ),
        List.Forall₂ (HasIndex Reference.platform Reference.config.destPrefix s.exporter.commits)
          s.reader.results indices ∧
        indices.Pairwise (· ≥ ·) ∧
        (NewIds Reference.platform Reference.config.destPrefix Reference.emptyStore
          s.exporter.writers → ∀ result ∈ s.reader.results, ∀ publication,
            result.publication = some publication →
              ∃ (n : ℕ) (store : ObjectStore Reference.TaggedBytes),
                s.exporter.commits[n]? = some store ∧
                Holds Reference.platform Reference.config.destPrefix store publication ∧
                ∀ m, CommittedAt Reference.platform Reference.config.destPrefix
                  s.exporter.commits publication m → m = n) := by
  obtain ⟨payloads, ha⟩ := prepare_reference 0 (by decide) 'a' (by decide)
  obtain ⟨rows, stored, _, _, _, hcompute⟩ := (prepare_eq_ready_iff _).mp ha
  obtain ⟨merged, _, _, _, hmeta, hone⟩ :=
    decode_of_compute Reference.parquetFaithful Reference.jsonFaithful hcompute
  -- after the first PUT there is still no marker
  have habsent : Reference.emptyStore.write
      (objectKey Reference.config.destPrefix "workflows.parquet") payloads.workflows
      (key Reference.config.destPrefix "meta.json") = none :=
    ObjectStore.write_ne _ _ fun hkey => absurd (objectKey_injective _ hkey) (by decide)
  have hrun := Relation.ReflTransGen.refl (r := SingleStep Reference.platform
    Reference.config.destPrefix)
    (a := ⟨Exporter.start Reference.config.destPrefix Reference.emptyStore, Reader.start⟩)
  have hrun := hrun.tail (.exporter (.begin Reference.config _ _ _ .served rfl rfl ha))
  have hrun := hrun.tail (.exporter (.putServed rfl))
  have hrun := hrun.tail (.reader (.getMeta .served rfl))
  have hrun := hrun.tail (.exporter (.putServed rfl))
  have hrun := hrun.tail (.reader (.getWorkflows .served rfl))
  have hrun := hrun.tail (.reader (.finish .served none rfl (read_of_absent habsent _ _ none none)))
  have hrun := hrun.tail (.exporter (.putServed rfl))
  have hrun := hrun.tail (.reader (.getMeta .served rfl))
  have hrun := hrun.tail (.reader (.getWorkflows .served rfl))
  have hrun := hrun.tail (.reader (.finish .served none rfl
    (readStore_writePayloads _ hmeta hone none)))
  exact ⟨_, hrun, rfl,
    consumer_never_goes_back Reference.parquetFaithful Reference.jsonFaithful hrun⟩

/-! ## Whole cycles -/

/-- The PUTs of a publish phase, in a row, when a failing one has no effect. -/
theorem publish_run {destPrefix id : String} {uploads : List (Upload Bytes)}
    (hclean : ∀ u ∈ uploads, u.outcome.FailsCleanly) (published : List String)
    {e : Exporter Bytes} (hnext : e.writers.publishing 0 =
      some ⟨destPrefix, id, uploads.map fun u => (u.name, u.data)⟩) :
    ∃ e', Relation.ReflTransGen (ExporterStep py pfx) e e' ∧
      e'.writers.store = (publish (objectKey destPrefix) e.writers.store published uploads).2 := by
  induction uploads generalizing e published with
  | nil => exact ⟨e, .refl, rfl⟩
  | cons u uploads ih =>
      obtain ⟨hu, hrest⟩ := List.forall_mem_cons.mp hclean
      cases hout : u.outcome with
      | served =>
          obtain ⟨e', hsteps, hstore⟩ := ih hrest (published ++ [u.name])
            (Exporter.assign_publishing (e.land destPrefix id u.name u.data) _)
          refine ⟨e', .head (.putServed hnext) hsteps, ?_⟩
          rw [hstore, publish, hout, uploadBytes]
          rfl
      -- a clean failure leaves the store, and the exporter stops
      | failed error landed =>
          rw [hout] at hu
          have hlanded : landed = false := hu
          refine ⟨_, .single .stop, ?_⟩
          rw [publish, hout, uploadBytes, hlanded]
          rfl

/-- A whole `_run_cycle` whose failing PUTs have no effect is a run of the exporter's steps. -/
theorem runCycle_run {e : Exporter Bytes} {cfg : Config} (inputs : CycleInputs cfg)
    (hidle : e.writers.publishing 0 = none)
    (hpfx : Config.normalizeS3Prefix cfg.destPrefix = Config.normalizeS3Prefix pfx)
    (hclean : inputs.PutsFailCleanly) :
    ∃ e', Relation.ReflTransGen (ExporterStep py pfx) e e' ∧
      e'.writers.store = (runCycle py cfg inputs e.writers.store).2 := by
  unfold runCycle
  dsimp only
  cases hprep : prepare py cfg inputs.now inputs.uuid inputs.answers
      (getObject e.writers.store inputs.getRuns (objectKey cfg.destPrefix "runs.parquet")) with
  | skip stats => exact ⟨e, .refl, rfl⟩
  | fail error phase stats => exact ⟨e, .refl, rfl⟩
  | ready payloads stats =>
      have hbegin := ExporterStep.begin cfg inputs.now inputs.uuid inputs.answers inputs.getRuns
        hidle hpfx hprep
      obtain ⟨e', hsteps, hstore⟩ := publish_run (hclean.uploads payloads) [] (Exporter.assign_publishing
        ⟨e.writers.join ⟨generationId inputs.now inputs.uuid, payloads⟩, e.commits⟩
        (some ⟨cfg.destPrefix, generationId inputs.now inputs.uuid, payloads.objects⟩))
      exact ⟨e', .head hbegin hsteps, hstore.trans (afterPublish_store cfg stats _).symm⟩

end ArgoExporter.SharedPrefix
