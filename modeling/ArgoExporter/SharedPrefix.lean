/-
  ArgoExporter.SharedPrefix

  Several exporter processes and one consumer on one prefix of a bucket.  The
  PUTs of the processes and the GETs of the consumer interleave in any order; a
  process may stop between two PUTs, and a PUT that fails may have taken
  effect.
-/

import ArgoExporter.Consumer
import ArgoExporter.Generation
import ArgoExporter.Lib.Provenance
import Mathlib.Logic.Function.Basic
import Mathlib.Logic.Relation

namespace ArgoExporter.SharedPrefix

open ArgoExporter.Lib.Provenance
open ArgoExporter.Py
open ArgoExporter.S3io
open ArgoExporter.Main
open ArgoExporter.Consumer

variable {Bytes : Type} (py : Platform Bytes) (pfx : String) (initial : ObjectStore Bytes)

/-! ## Writers -/

/-- A cycle that got to its publish phase. -/
structure Cycle (Bytes : Type) where
  id : String
  payloads : Payloads Bytes

/-- The PUTs a process has still to make, and the prefix it makes them under. -/
structure Publishing (Bytes : Type) where
  destPrefix : String
  id : String
  todo : List (String × Bytes)

/-- The store and the processes; `cycles` and `log` record the publish phases that began and the
    PUTs that took effect. -/
structure Writers (Bytes : Type) where
  store : ObjectStore Bytes
  publishing : Nat → Option (Publishing Bytes)
  cycles : List (Cycle Bytes)
  log : List (Write String String Bytes)

/-- The objects found at the start, and no process publishing. -/
def Writers.start (initial : ObjectStore Bytes) : Writers Bytes := ⟨initial, fun _ => none, [], []⟩

/-- The marker found at the start names this generation. -/
def NamedAtStart (id : String) : Prop :=
  ∃ data metaJson, initial (objectKey pfx "meta.json") = some data ∧
    py.jsonLoads data = .ok metaJson ∧ metaGenerationId metaJson = some id

/-- Change what one process has to do. -/
def Writers.assign (w : Writers Bytes) (process : Nat) (todo : Option (Publishing Bytes)) :
    Writers Bytes :=
  { w with publishing := Function.update w.publishing process todo }

@[simp] theorem Writers.assign_self (w : Writers Bytes) (process : Nat)
    (todo : Option (Publishing Bytes)) : (w.assign process todo).publishing process = todo :=
  Function.update_self ..

theorem Writers.assign_of_ne (w : Writers Bytes) {process q : Nat}
    (todo : Option (Publishing Bytes)) (h : q ≠ process) :
    (w.assign process todo).publishing q = w.publishing q :=
  Function.update_of_ne h ..

/-- A cycle gets to its publish phase. -/
def Writers.join (w : Writers Bytes) (cycle : Cycle Bytes) : Writers Bytes :=
  { w with cycles := cycle :: w.cycles }

/-- The PUT of an object takes effect. -/
def Writers.land (w : Writers Bytes) (destPrefix id name : String) (data : Bytes) :
    Writers Bytes :=
  { w with
    store := w.store.write (objectKey destPrefix name) data
    log := ⟨id, objectKey destPrefix name, data⟩ :: w.log }

/-- One step of one process. -/
inductive WriterStep : Writers Bytes → Writers Bytes → Prop where
  /-- An idle process collects, reads the ledger and gets to its publish phase with a new id. -/
  | begin {w : Writers Bytes} (process : Nat) (cfg : Config) (now : Stamp) (uuid : UuidHex)
      (answers : Answers cfg.clusters) (getRuns : GetOutcome) {payloads : Payloads Bytes}
      {stats : List Workflows.ClusterStat} (hidle : w.publishing process = none)
      (hpfx : Config.normalizeS3Prefix cfg.destPrefix = Config.normalizeS3Prefix pfx)
      (hprepare : prepare py cfg now uuid answers
        (getObject w.store getRuns (objectKey cfg.destPrefix "runs.parquet")) =
          .ready payloads stats)
      (hdistinct : ∀ c ∈ w.cycles, c.id ≠ generationId now uuid)
      (hnew : ¬ NamedAtStart py pfx initial (generationId now uuid)) :
      WriterStep w ((w.join ⟨generationId now uuid, payloads⟩).assign process
        (some ⟨cfg.destPrefix, generationId now uuid, payloads.objects⟩))
  /-- The next PUT is served. -/
  | putServed {w : Writers Bytes} (process : Nat) {destPrefix id name : String} {data : Bytes}
      {todo : List (String × Bytes)}
      (hnext : w.publishing process = some ⟨destPrefix, id, (name, data) :: todo⟩) :
      WriterStep w ((w.land destPrefix id name data).assign process
        (some ⟨destPrefix, id, todo⟩))
  /-- The next PUT fails, which ends the cycle; it may have taken effect all the same. -/
  | putFailed {w : Writers Bytes} (process : Nat) {destPrefix id name : String} {data : Bytes}
      {todo : List (String × Bytes)} (landed : Bool)
      (hnext : w.publishing process = some ⟨destPrefix, id, (name, data) :: todo⟩) :
      WriterStep w ((if landed then w.land destPrefix id name data else w).assign process none)
  /-- The process stops publishing, with PUTs left to make or without. -/
  | stop {w : Writers Bytes} (process : Nat) : WriterStep w (w.assign process none)

/-! ## Consumer -/

/-- Where a read stands.  The GETs that a rejected marker would save are made here without effect:
    the result of such a read does not depend on them. -/
inductive Reading (Bytes : Type) where
  | idle
  | gotMeta (getMeta : Except Exc Bytes)
  | gotWorkflows (getMeta getWorkflows : Except Exc Bytes)

/-- The consumer, with the results of its reads so far. -/
structure Reader (Bytes : Type) where
  reading : Reading Bytes
  lastComplete : Option (Publication Bytes)
  results : List (PublicationResult Bytes)

def Reader.start : Reader Bytes := ⟨.idle, none, []⟩

/-- One step of the consumer on the current store; each result is passed to the next read. -/
inductive ReaderStep (store : ObjectStore Bytes) : Reader Bytes → Reader Bytes → Prop where
  | getMeta {r : Reader Bytes} (outcome : GetOutcome) (hidle : r.reading = .idle) :
      ReaderStep store r
        { r with reading := .gotMeta (getObject store outcome (key pfx "meta.json")) }
  | getWorkflows {r : Reader Bytes} {getMeta : Except Exc Bytes} (outcome : GetOutcome)
      (hmeta : r.reading = .gotMeta getMeta) :
      ReaderStep store r { r with
        reading := .gotWorkflows getMeta (getObject store outcome (key pfx "workflows.parquet")) }
  | finish {r : Reader Bytes} {getMeta getWorkflows : Except Exc Bytes} (outcome : GetOutcome)
      (freshness : Option FreshnessCheck) {result : PublicationResult Bytes}
      (hread : r.reading = .gotWorkflows getMeta getWorkflows)
      (hresult : readGenerationResult py getMeta getWorkflows
        (getObject store outcome (key pfx "runs.parquet")) r.lastComplete freshness = .ok result) :
      ReaderStep store r ⟨.idle, result.publication, result :: r.results⟩
  | raised {r : Reader Bytes} {getMeta getWorkflows : Except Exc Bytes} (outcome : GetOutcome)
      (freshness : Option FreshnessCheck) {e : Exc}
      (hread : r.reading = .gotWorkflows getMeta getWorkflows)
      (hresult : readGenerationResult py getMeta getWorkflows
        (getObject store outcome (key pfx "runs.parquet")) r.lastComplete freshness = .error e) :
      ReaderStep store r { r with reading := .idle }

/-! ## The system -/

structure System (Bytes : Type) where
  writers : Writers Bytes
  reader : Reader Bytes

inductive Step : System Bytes → System Bytes → Prop where
  | writer {s : System Bytes} {w : Writers Bytes}
      (h : WriterStep py pfx initial s.writers w) : Step s { s with writers := w }
  | reader {s : System Bytes} {r : Reader Bytes}
      (h : ReaderStep py pfx s.writers.store s.reader r) : Step s { s with reader := r }

/-- The states of any run from these objects. -/
def Reachable (s : System Bytes) : Prop :=
  Relation.ReflTransGen (Step py pfx initial) ⟨Writers.start initial, Reader.start⟩ s

/-! ## Undisturbed cycles -/

variable {py pfx initial}

/-- The PUTs of a publish phase, in a row. -/
theorem publish_steps {destPrefix id : String} (process : Nat) (uploads : List (Upload Bytes))
    (published : List String) {w : Writers Bytes}
    (hnext : w.publishing process =
      some ⟨destPrefix, id, uploads.map fun u => (u.name, u.data)⟩) :
    ∃ w', Relation.ReflTransGen (WriterStep py pfx initial) w w' ∧
      w'.store = (publish (objectKey destPrefix) w.store published uploads).2 := by
  induction uploads generalizing w published with
  | nil => exact ⟨w, .refl, rfl⟩
  | cons u uploads ih =>
      cases hout : u.outcome with
      | served =>
          obtain ⟨w', hsteps, hstore⟩ := ih (published ++ [u.name])
            (Writers.assign_self (w.land destPrefix id u.name u.data) process _)
          refine ⟨w', .head (.putServed process hnext) hsteps, ?_⟩
          rw [hstore, publish, hout, uploadBytes]
          rfl
      -- a failed PUT ends the publication, whether or not it landed
      | failed e landed =>
          refine ⟨_, .single (.putFailed process landed hnext), ?_⟩
          rw [publish, hout, uploadBytes]
          cases landed <;> rfl

/-- A whole `_run_cycle` of an idle process is a run of the system: what it does to the store is
    what these steps do when nobody else takes one. -/
theorem runCycle_steps {w : Writers Bytes} (process : Nat) {cfg : Config}
    (inputs : CycleInputs cfg) (hidle : w.publishing process = none)
    (hpfx : Config.normalizeS3Prefix cfg.destPrefix = Config.normalizeS3Prefix pfx)
    (hdistinct : ∀ c ∈ w.cycles, c.id ≠ generationId inputs.now inputs.uuid)
    (hnew : ¬ NamedAtStart py pfx initial (generationId inputs.now inputs.uuid)) :
    ∃ w', Relation.ReflTransGen (WriterStep py pfx initial) w w' ∧
      w'.store = (runCycle py cfg inputs w.store).2 := by
  unfold runCycle
  dsimp only
  cases hprep : prepare py cfg inputs.now inputs.uuid inputs.answers
      (getObject w.store inputs.getRuns (objectKey cfg.destPrefix "runs.parquet")) with
  | skip stats => exact ⟨w, .refl, rfl⟩
  | fail e phase stats => exact ⟨w, .refl, rfl⟩
  -- only a prepared cycle begins a publication
  | ready payloads stats =>
      have hbegin := WriterStep.begin process cfg inputs.now
        inputs.uuid inputs.answers inputs.getRuns hidle hpfx hprep hdistinct hnew
      have hnext := Writers.assign_self (w.join ⟨generationId inputs.now inputs.uuid, payloads⟩)
        process (some ⟨cfg.destPrefix, generationId inputs.now inputs.uuid, payloads.objects⟩)
      obtain ⟨w', hsteps, hstore⟩ := publish_steps process (uploads inputs payloads) [] hnext
      exact ⟨w', .head hbegin hsteps, hstore.trans (afterPublish_store cfg stats _).symm⟩

end ArgoExporter.SharedPrefix
