/-
  ArgoExporter.SharedBucket

  Several deployments in one bucket, each under a prefix of its own: exporter
  processes and consumers whose GETs and PUTs come in any order.  Operators
  that need independent writers must give them different prefixes; this is
  what different prefixes give them.
-/

import ArgoExporter.Lib.Regions
import ArgoExporter.PollLoop.Progress
import ArgoExporter.SharedPrefix

namespace ArgoExporter.SharedBucket

open ArgoExporter.Lib.Regions
open ArgoExporter.Py
open ArgoExporter.S3io
open ArgoExporter.Main
open ArgoExporter.Consumer
open ArgoExporter.SharedPrefix (Reader Reading ReaderStep)

variable {Bytes : Type}

/-! ## One deployment -/

/-- Two spellings of one prefix. -/
def SamePrefix (a b : String) : Prop := Config.normalizeS3Prefix a = Config.normalizeS3Prefix b

instance (a b : String) : Decidable (SamePrefix a b) :=
  inferInstanceAs (Decidable (Config.normalizeS3Prefix a = Config.normalizeS3Prefix b))

/-- What a process has still to do in its publish phase. -/
structure Publishing (pfx : String) (Bytes : Type) where
  cfg : Config
  under : SamePrefix cfg.destPrefix pfx
  stats : List Workflows.ClusterStat
  published : List String
  todo : List (Upload Bytes)
  named : ∀ upload ∈ todo, upload.name ∈ publicationObjects

/-- The exporter processes and the consumers under one prefix; `ended` has the cycles that ended,
    newest first. -/
structure Deployment (pfx : String) (Bytes : Type) where
  publishing : ℕ → Option (Publishing pfx Bytes)
  ended : List (ℕ × CycleOutcome)
  readers : ℕ → Reader Bytes

/-- No process has started a cycle and no consumer a read. -/
def Deployment.fresh (pfx : String) (Bytes : Type) : Deployment pfx Bytes :=
  ⟨fun _ => none, [], fun _ => Reader.start⟩

/-- What happens in a deployment; no act makes more than one request to the bucket. -/
inductive Act (pfx : String) where
  /-- A process collects, reads the ledger and computes. -/
  | begin (process : ℕ) (cfg : Config) (under : SamePrefix cfg.destPrefix pfx)
      (inputs : CycleInputs cfg)
  /-- A process in its publish phase makes the next PUT, or returns after the last. -/
  | advance (process : ℕ)
  | crash (process : ℕ)
  /-- A consumer makes the next GET of its read. -/
  | get (consumer : ℕ) (readPrefix : String) (under : SamePrefix readPrefix pfx)
      (outcome : GetOutcome) (freshness : Option FreshnessCheck)

variable {pfx : String}

/-- A process's cycle ends. -/
def Deployment.finish (d : Deployment pfx Bytes) (process : ℕ) (outcome : CycleOutcome) :
    Deployment pfx Bytes :=
  { d with
    publishing := Function.update d.publishing process none
    ended := (process, outcome) :: d.ended }

def Deployment.assign (d : Deployment pfx Bytes) (process : ℕ) (todo : Publishing pfx Bytes) :
    Deployment pfx Bytes :=
  { d with publishing := Function.update d.publishing process (some todo) }

theorem uploads_named {cfg : Config} (inputs : CycleInputs cfg) (payloads : Payloads Bytes) :
    ∀ upload ∈ uploads inputs payloads, upload.name ∈ publicationObjects := by
  intro upload hupload
  simp only [uploads, List.mem_cons, List.not_mem_nil, or_false] at hupload
  rcases hupload with rfl | rfl | rfl <;> simp [publicationObjects]

variable (py : Platform Bytes)

/-- The read and compute phases of an idle process; a busy one runs one cycle at a time. -/
def Deployment.begin (d : Deployment pfx Bytes) (store : ObjectStore Bytes) (process : ℕ)
    (cfg : Config) (under : SamePrefix cfg.destPrefix pfx) (inputs : CycleInputs cfg) :
    Deployment pfx Bytes :=
  match d.publishing process with
  | some _ => d
  | none =>
      match prepare py cfg inputs.now inputs.uuid inputs.answers
          (getObject store inputs.getRuns (objectKey cfg.destPrefix "runs.parquet")) with
      | .skip stats => d.finish process (.skipped (nothingAnswered cfg stats))
      | .fail e phase stats => d.finish process (.raised e (cycleFailure cfg phase stats []))
      | .ready payloads stats => d.assign process
          ⟨cfg, under, stats, [], uploads inputs payloads, uploads_named inputs payloads⟩

/-- The next PUT of a process; the first one that fails ends the cycle. -/
def Deployment.advance (process : ℕ) (x : Deployment pfx Bytes × ObjectStore Bytes) :
    Deployment pfx Bytes × ObjectStore Bytes :=
  match x.1.publishing process with
  | none => x
  | some ⟨_, _, _, _, [], _⟩ => (x.1.finish process .published, x.2)
  | some ⟨cfg, under, stats, published, upload :: todo, named⟩ =>
      match uploadBytes x.2 upload.outcome (objectKey cfg.destPrefix upload.name) upload.data with
      | (.ok (), store) => (x.1.assign process ⟨cfg, under, stats, published ++ [upload.name], todo,
          fun u hu => named u (List.mem_cons_of_mem _ hu)⟩, store)
      | (.error e, store) =>
          (x.1.finish process (.raised e (cycleFailure cfg .publish stats published)), store)

/-- The next GET of a consumer's read. -/
def readerGet (pfx : String) (store : ObjectStore Bytes) (outcome : GetOutcome)
    (freshness : Option FreshnessCheck) (r : Reader Bytes) : Reader Bytes :=
  match r.reading with
  | .idle => { r with reading := .gotMeta (getObject store outcome (key pfx "meta.json")) }
  | .gotMeta getMeta =>
      { r with reading :=
          .gotWorkflows getMeta (getObject store outcome (key pfx "workflows.parquet")) }
  | .gotWorkflows getMeta getWorkflows =>
      match readGenerationResult py getMeta getWorkflows
          (getObject store outcome (key pfx "runs.parquet")) r.lastComplete freshness with
      | .ok result => ⟨.idle, result.publication, result :: r.results⟩
      | .error _ => { r with reading := .idle }

/-- A consumer here does what a consumer of one prefix does. -/
theorem readerGet_step (pfx : String) (store : ObjectStore Bytes) (outcome : GetOutcome)
    (freshness : Option FreshnessCheck) (r : Reader Bytes) :
    ReaderStep py pfx store r (readerGet py pfx store outcome freshness r) := by
  unfold readerGet
  cases hreading : r.reading with
  | idle => exact .getMeta outcome hreading
  | gotMeta getMeta => exact .getWorkflows outcome hreading
  | gotWorkflows getMeta getWorkflows =>
      dsimp only
      cases hresult : readGenerationResult py getMeta getWorkflows
          (getObject store outcome (key pfx "runs.parquet")) r.lastComplete freshness with
      | ok result => exact .finish outcome freshness hreading hresult
      | error e => exact .raised outcome freshness hreading hresult

/-- What an act does to the deployment and to the bucket. -/
def perform (act : Act pfx) (x : Deployment pfx Bytes × ObjectStore Bytes) :
    Deployment pfx Bytes × ObjectStore Bytes :=
  match act with
  | .begin process cfg under inputs => (x.1.begin py x.2 process cfg under inputs, x.2)
  | .advance process => Deployment.advance process x
  | .crash process =>
      ({ x.1 with publishing := Function.update x.1.publishing process none }, x.2)
  | .get consumer readPrefix _ outcome freshness =>
      ({ x.1 with
          readers := Function.update x.1.readers consumer
            (readerGet py readPrefix x.2 outcome freshness (x.1.readers consumer)) }, x.2)

variable {py}

/-! ## Regions -/

/-- The keys of the objects of a publication under a prefix. -/
def region (pfx : String) : Set String :=
  {k | ∃ name ∈ publicationObjects, k = objectKey pfx name}

theorem objectKey_mem {readPrefix name : String} (under : SamePrefix readPrefix pfx)
    (hname : name ∈ publicationObjects) : objectKey readPrefix name ∈ region pfx :=
  ⟨name, hname, (objectKey_eq_iff readPrefix pfx name).mpr under⟩

/-- What follows the last slash of a key. -/
def fileName (key : String) : List Char := (key.toList.reverse.takeWhile (· ≠ '/')).reverse

theorem fileName_objectKey (pfx : String) {name : String} (hname : '/' ∉ name.toList) :
    fileName (objectKey pfx name) = name.toList := by
  have hall : ∀ c ∈ name.toList.reverse, decide (c ≠ '/') = true := by
    intro c hc
    refine decide_eq_true fun heq => hname ?_
    exact heq ▸ List.mem_reverse.mp hc
  have htake : name.toList.reverse.takeWhile (· ≠ '/') = name.toList.reverse :=
    List.takeWhile_eq_self_iff.mpr hall
  simp only [fileName, objectKey]
  split
  · rw [htake, List.reverse_reverse]
  -- the slash before the name ends the scan
  · have hslash : "/".toList = ['/'] := rfl
    rw [String.toList_append, String.toList_append, List.reverse_append, List.reverse_append,
      hslash, List.takeWhile_append_of_pos hall]
    simp

/-- A key gives away the prefix, however the prefixes are nested. -/
theorem region_disjoint {a b : String} (h : ¬ SamePrefix a b) :
    Disjoint (region a) (region b) := by
  have hplain : ∀ name ∈ publicationObjects, '/' ∉ name.toList := by decide
  refine Set.disjoint_left.mpr fun k ha hb => h ?_
  obtain ⟨m, hm, rfl⟩ := ha
  obtain ⟨n, hn, hkeys⟩ := hb
  have hnames : m = n := by
    rw [← String.toList_inj, ← fileName_objectKey a (hplain m hm),
      ← fileName_objectKey b (hplain n hn), hkeys]
  subst hnames
  exact (objectKey_eq_iff a b m).mp hkeys

theorem getObject_congr {store store' : ObjectStore Bytes} {k : String} (h : store k = store' k)
    (outcome : GetOutcome) : getObject store outcome k = getObject store' outcome k := by
  cases outcome with
  | served => rw [getObject, getObject, h]
  | failed e hcls => rfl

theorem getObject_eqOn {store store' : ObjectStore Bytes} (h : Set.EqOn store store' (region pfx))
    {readPrefix name : String} (under : SamePrefix readPrefix pfx)
    (hname : name ∈ publicationObjects) (outcome : GetOutcome) :
    getObject store outcome (objectKey readPrefix name) =
      getObject store' outcome (objectKey readPrefix name) :=
  getObject_congr (h (objectKey_mem under hname)) outcome

/-! ## Acts stay in the region -/

theorem begin_eqOn (d : Deployment pfx Bytes) {store store' : ObjectStore Bytes}
    (h : Set.EqOn store store' (region pfx)) (process : ℕ) (cfg : Config)
    (under : SamePrefix cfg.destPrefix pfx) (inputs : CycleInputs cfg) :
    d.begin py store process cfg under inputs = d.begin py store' process cfg under inputs := by
  unfold Deployment.begin
  rw [getObject_eqOn h under (by simp [publicationObjects]) inputs.getRuns]

theorem readerGet_eqOn {store store' : ObjectStore Bytes} (h : Set.EqOn store store' (region pfx))
    {readPrefix : String} (under : SamePrefix readPrefix pfx) (outcome : GetOutcome)
    (freshness : Option FreshnessCheck) (r : Reader Bytes) :
    readerGet py readPrefix store outcome freshness r =
      readerGet py readPrefix store' outcome freshness r := by
  have hget : ∀ name ∈ publicationObjects, getObject store outcome (key readPrefix name) =
      getObject store' outcome (key readPrefix name) :=
    fun name hname => getObject_eqOn h under hname outcome
  unfold readerGet
  rw [hget "meta.json" (by simp [publicationObjects]),
    hget "workflows.parquet" (by simp [publicationObjects]),
    hget "runs.parquet" (by simp [publicationObjects])]

/-- How a PUT ends does not depend on what is stored, nor does what it leaves under the keys on
    which the stores agree. -/
theorem uploadBytes_eqOn {store store' : ObjectStore Bytes} {keys : Set String}
    (h : Set.EqOn store store' keys) (outcome : PutOutcome) (k : String) (data : Bytes) :
    (uploadBytes store outcome k data).1 = (uploadBytes store' outcome k data).1 ∧
      Set.EqOn (uploadBytes store outcome k data).2 (uploadBytes store' outcome k data).2 keys := by
  refine ⟨by cases outcome <;> rfl, fun k' hk' => ?_⟩
  by_cases hkey : k' = k
  · subst hkey
    rw [uploadBytes_self, uploadBytes_self, h hk']
  · rw [uploadBytes_ne store outcome data hkey, uploadBytes_ne store' outcome data hkey, h hk']

theorem advance_confined (process : ℕ) :
    Confined (region pfx) fun x : Deployment pfx Bytes × ObjectStore Bytes =>
      Deployment.advance process x where
  frame x k hk := by
    obtain ⟨d, store⟩ := x
    unfold Deployment.advance
    dsimp only
    rcases d.publishing process with _ | ⟨cfg, under, stats, published, _ | ⟨upload, todo⟩, named⟩
    · rfl
    · rfl
    · have hne : k ≠ objectKey cfg.destPrefix upload.name := fun heq =>
        hk (heq ▸ objectKey_mem under (named upload List.mem_cons_self))
      have hput := uploadBytes_ne store upload.outcome upload.data hne
      dsimp only
      rcases huploaded : uploadBytes store upload.outcome (objectKey cfg.destPrefix upload.name)
        upload.data with ⟨_ | _, store'⟩
      · rw [huploaded] at hput
        exact hput
      · rw [huploaded] at hput
        exact hput
  alike {x y} hxy := by
    obtain ⟨d, store⟩ := x
    obtain ⟨d', store'⟩ := y
    obtain ⟨rfl, hstore⟩ := hxy
    unfold Deployment.advance
    dsimp only at hstore ⊢
    rcases d.publishing process with _ | ⟨cfg, under, stats, published, _ | ⟨upload, todo⟩, named⟩
    · exact ⟨rfl, hstore⟩
    · exact ⟨rfl, hstore⟩
    · obtain ⟨hresult, hput⟩ := uploadBytes_eqOn hstore upload.outcome
        (objectKey cfg.destPrefix upload.name) upload.data
      dsimp only
      rcases huploaded : uploadBytes store upload.outcome (objectKey cfg.destPrefix upload.name)
        upload.data with ⟨r, after⟩
      rcases huploaded' : uploadBytes store' upload.outcome (objectKey cfg.destPrefix upload.name)
        upload.data with ⟨r', after'⟩
      rw [huploaded, huploaded'] at hresult hput
      dsimp only at hresult hput
      subst hresult
      cases r with
      | ok => exact ⟨rfl, hput⟩
      | error e => exact ⟨rfl, hput⟩

/-- No act reads or writes an object of another prefix. -/
theorem perform_confined (act : Act pfx) : Confined (region pfx) (perform py act) := by
  cases act with
  | begin process cfg under inputs =>
      exact .of_reads (fun d store => d.begin py store process cfg under inputs)
        fun d _ _ h => begin_eqOn d h process cfg under inputs
  | advance process => exact advance_confined process
  | crash process =>
      exact .of_reads (fun (d : Deployment pfx Bytes) _ =>
        { d with publishing := Function.update d.publishing process none }) fun _ _ _ _ => rfl
  | get consumer readPrefix under outcome freshness =>
      refine .of_reads (fun (d : Deployment pfx Bytes) store => { d with
        readers := Function.update d.readers consumer
          (readerGet py readPrefix store outcome freshness (d.readers consumer)) }) fun d _ _ h => ?_
      rw [readerGet_eqOn h under]

/-! ## Isolation -/

section Isolation

variable {ι : Type*}

/-- The acts of each of several deployments. -/
def performIn (py : Platform Bytes) (pfx : ι → String) (i : ι) (act : Act (pfx i)) :
    Deployment (pfx i) Bytes × ObjectStore Bytes → Deployment (pfx i) Bytes × ObjectStore Bytes :=
  perform py act

/-- One bucket with several deployments. -/
abbrev Bucket (pfx : ι → String) (Bytes : Type) :=
  Shared (fun i => Deployment (pfx i) Bytes) String (Option Bytes)

variable {pfx : ι → String}

theorem regions_disjoint (hdistinct : Pairwise fun i j => ¬ SamePrefix (pfx i) (pfx j)) :
    Pairwise fun i j => Disjoint (region (pfx i)) (region (pfx j)) :=
  fun _ _ hij => region_disjoint (hdistinct hij)

theorem performIn_confined (acts : List (Σ i, Act (pfx i))) :
    ∀ a ∈ acts, Confined (region (pfx a.1)) (performIn py pfx a.1 a.2) :=
  fun a _ => perform_confined a.2

variable [DecidableEq ι]

/-- Deployments whose prefixes differ once normalized are isolated, whatever their processes and
    consumers do and in whatever order their requests come: each ends with the objects, the ends
    of cycles and the results of reads of a run with the bucket to itself; objects that belong to
    none of them stay as they were; and every order of the requests in which each deployment
    makes the same ones leaves the same bucket and the same deployments. -/
theorem deployments_are_isolated
    (hdistinct : Pairwise fun i j => ¬ SamePrefix (pfx i) (pfx j)) (bucket : Bucket pfx Bytes)
    (acts : List (Σ i, Act (pfx i))) :
    let after := run (performIn py pfx) bucket acts
    (∀ i, let apart := alone (performIn py pfx) i (own i acts) (bucket.view i)
      after.parties i = apart.1 ∧ ∀ name ∈ publicationObjects,
        after.memory (objectKey (pfx i) name) = apart.2 (objectKey (pfx i) name)) ∧
      (∀ k, (∀ i, ∀ name ∈ publicationObjects, k ≠ objectKey (pfx i) name) →
        after.memory k = bucket.memory k) ∧
      ∀ acts', (∀ i, own i acts' = own i acts) → run (performIn py pfx) bucket acts' = after := by
  have hdisjoint := regions_disjoint hdistinct
  refine ⟨fun i => ?_, fun k hk => ?_, fun acts' hown => ?_⟩
  · have halike : Alike (region (pfx i)) ((run (performIn py pfx) bucket acts).view i) _ :=
      run_alike hdisjoint (performIn_confined acts) bucket i (Alike.refl (bucket.view i))
    exact ⟨halike.1, fun name hname => halike.2 (objectKey_mem rfl hname)⟩
  · refine run_frame (fun i => region (pfx i)) (performIn_confined acts) bucket fun i hmem => ?_
    obtain ⟨name, hname, heq⟩ := hmem
    exact hk i name hname heq
  · exact run_eq_of_own hdisjoint (performIn_confined acts') (performIn_confined acts) hown bucket

end Isolation

/-! ## Nested prefixes -/

/-- A prefix, and one inside it. -/
def nestedPrefix (inner : Bool) : String := if inner then "argo/data" else "argo/"

theorem nestedPrefix_distinct :
    Pairwise fun i j => ¬ SamePrefix (nestedPrefix i) (nestedPrefix j) := by
  have hne : ¬ SamePrefix (nestedPrefix true) (nestedPrefix false) := by decide
  intro i j hij
  cases i with
  | true =>
      cases j with
      | true => exact absurd rfl hij
      | false => exact hne
  | false =>
      cases j with
      | true => exact fun h => hne h.symm
      | false => exact absurd rfl hij

def nestedConfig (inner : Bool) : Config :=
  { Reference.config with destPrefix := nestedPrefix inner }

/-- The cycle of the reference run's first pass, which finds one run. -/
def nestedInputs (inner : Bool) : CycleInputs (nestedConfig inner) :=
  let inputs := Reference.firstCompleted.pass.inputs
  { now := inputs.now
    uuid := inputs.uuid
    answers := inputs.answers
    getRuns := inputs.getRuns
    putWorkflows := inputs.putWorkflows
    putRuns := inputs.putRuns
    putMeta := inputs.putMeta }

/-- A bucket without objects, its deployments idle. -/
def emptyBucket : Bucket nestedPrefix Reference.TaggedBytes :=
  ⟨fun inner => Deployment.fresh (nestedPrefix inner) _, Reference.emptyStore⟩

/-- Both begin a cycle and one loses its process, with a read of the other's marker in between. -/
def nestedActs : List (Σ inner, Act (nestedPrefix inner)) :=
  [⟨true, .begin 0 (nestedConfig true) rfl (nestedInputs true)⟩,
    ⟨false, .begin 0 (nestedConfig false) rfl (nestedInputs false)⟩, ⟨true, .advance 0⟩,
    ⟨false, .advance 0⟩, ⟨true, .get 0 "/argo/data" (by decide) .served none⟩, ⟨false, .crash 0⟩,
    ⟨true, .advance 0⟩]

/-- Two deployments, the prefix of one inside that of the other. -/
theorem deployments_are_isolated_nested :
    let after := run (performIn Reference.platform nestedPrefix) emptyBucket nestedActs
    (∀ i,
      let apart :=
        alone (performIn Reference.platform nestedPrefix) i (own i nestedActs) (emptyBucket.view i)
      after.parties i = apart.1 ∧ ∀ name ∈ publicationObjects,
        after.memory (objectKey (nestedPrefix i) name) =
          apart.2 (objectKey (nestedPrefix i) name)) ∧
      (∀ k, (∀ i, ∀ name ∈ publicationObjects, k ≠ objectKey (nestedPrefix i) name) →
        after.memory k = emptyBucket.memory k) ∧
      ∀ acts', (∀ i, own i acts' = own i nestedActs) →
        run (performIn Reference.platform nestedPrefix) emptyBucket acts' = after :=
  deployments_are_isolated nestedPrefix_distinct emptyBucket nestedActs

end ArgoExporter.SharedBucket
