/-
  ArgoExporter.Main

  `main.py`: one poll-publish cycle.  A cycle reads (clusters and the stored
  ledger), computes three payloads, and publishes them one PUT after another,
  the sidecar last.  `prepare` is everything before the first PUT; it sees the
  store only through the response to its GET of the ledger.
-/

import ArgoExporter.Ledger
import ArgoExporter.MetaSchema
import ArgoExporter.ParquetIo
import ArgoExporter.S3io
import ArgoExporter.Workflows

namespace ArgoExporter.Main

open ArgoExporter.Py
open ArgoExporter.ParquetIo
open ArgoExporter.S3io
open ArgoExporter.Workflows

/-- `_PUBLICATION_OBJECTS`, in the order they are written. -/
def publicationObjects : List String := ["workflows.parquet", "runs.parquet", "meta.json"]

/-! ## Failure context -/

inductive Phase where
  | read
  | compute
  | publish
  deriving DecidableEq

/-- What `_annotate_cycle_failure` attaches to an exception, and the log line says. -/
structure CycleFailure where
  phase : Phase
  affectedClusters : List String
  failedClusters : List String
  publication : String
  publishedObjects : List String
  skippedObjects : List String

def clusterNames (cfg : Config) : List String := cfg.clusters.map Cluster.name

def failedClusterNames (stats : List ClusterStat) : List String :=
  (stats.filter fun stat => ¬ stat.ok).map ClusterStat.name

def annotateCycleFailure (phase : Phase) (affected failed published skipped : List String) :
    CycleFailure :=
  ⟨phase, affected, failed, if published.isEmpty then "skipped" else "partial", published, skipped⟩

/-- The context of an exception raised in `phase`, after `published` was uploaded. -/
def cycleFailure (cfg : Config) (phase : Phase) (stats : List ClusterStat)
    (published : List String) : CycleFailure :=
  let failed := failedClusterNames stats
  let affected := clusterNames cfg
  let failed := if failed.isEmpty ∧ phase = .read then affected else failed
  annotateCycleFailure phase affected failed published
    (publicationObjects.filter fun name => ¬ published.contains name)

/-- What is logged when no cluster answered. -/
def nothingAnswered (cfg : Config) (stats : List ClusterStat) : CycleFailure :=
  let failed := failedClusterNames stats
  annotateCycleFailure .read (clusterNames cfg) (if failed.isEmpty then clusterNames cfg else failed)
    [] publicationObjects

/-! ## Inputs -/

/-- `uuid.uuid4().hex`. -/
structure UuidHex where
  digits : List Char
  length_eq : digits.length = 32
  hex : ∀ c ∈ digits, MetaSchema.hexClass c = true

/-- One listing outcome per configured cluster, in configuration order. -/
structure Answers (clusters : List Cluster) where
  entries : List (Cluster × K8sApi.ListOutcome)
  clusters_eq : entries.map Prod.fst = clusters

/-- What a cycle meets outside the process: the wall clock, the random suffix, the clusters, and
    how its four storage requests end. -/
structure CycleInputs (cfg : Config) where
  now : Stamp
  uuid : UuidHex
  answers : Answers cfg.clusters
  getRuns : GetOutcome
  putWorkflows : PutOutcome
  putRuns : PutOutcome
  putMeta : PutOutcome

/-- `f"{generated_at}-{uuid.uuid4().hex[:12]}"`. -/
def generationId (now : Stamp) (uuid : UuidHex) : String :=
  now.text ++ "-" ++ String.ofList (uuid.digits.take 12)

/-! ## Read and compute phases -/

structure Payloads (Bytes : Type) where
  workflows : Bytes
  runs : Bytes
  «meta» : Bytes

def clusterEntry (stat : ClusterStat) : Json :=
  .obj [("name", .str stat.name), ("ok", .bool stat.ok), ("workflows", .int stat.workflows)]

/-- The sidecar of a cycle. -/
def sidecar (cfg : Config) (now : Stamp) (uuid : UuidHex) (stats : List ClusterStat)
    (workflows runs : Nat) : Json :=
  .obj [("version", .str cfg.version), ("generated_at", .str now.text),
    ("generation_id", .str (generationId now uuid)),
    ("poll_interval_seconds", .int cfg.pollIntervalSeconds),
    ("run_retention_days", .int cfg.runRetentionDays),
    ("clusters", .arr (stats.map clusterEntry)), ("workflows", .int workflows), ("runs", .int runs)]

variable {Bytes : Type} (py : Platform Bytes)

/-- The compute phase: merge, encode, describe, validate. -/
def compute (cfg : Config) (now : Stamp) (uuid : UuidHex) (rows : List SnapshotRow)
    (stats : List ClusterStat) (stored : Table) : Except Exc (Payloads Bytes) := do
  let merged ← Ledger.merge py (stored.toPylist.map LedgerRow.ofRecord) rows now.text
    cfg.runRetentionDays
  let workflowsPayload ← tableToParquetBytes py (rows.map SnapshotRow.toRecord) workflowsSchema
    (some (generationId now uuid))
  let runsPayload ← tableToParquetBytes py (merged.map LedgerRow.toRecord) runsSchema
    (some (generationId now uuid))
  let metaJson := sidecar cfg now uuid stats rows.length merged.length
  MetaSchema.validate py metaJson
  let metaPayload ← py.jsonDumps metaJson
  return ⟨workflowsPayload, runsPayload, metaPayload⟩

/-- The stored ledger; an absent one is empty, whatever its footer says. -/
def readLedger (getRuns : Except Exc Bytes) : Except Exc Table := do
  let data ← downloadBytes getRuns
  parquetBytesToTable py data runsSchema

/-- Where a cycle stands before its first PUT. -/
inductive Prepared (Bytes : Type) where
  | skip (stats : List ClusterStat)
  | fail (e : Exc) (phase : Phase) (stats : List ClusterStat)
  | ready (payloads : Payloads Bytes) (stats : List ClusterStat)

/-- The control flow before the first PUT: collect, stop if no cluster answered, read the ledger,
    compute.  An outage must not be published as an empty, fresh snapshot. -/
def inPhases (collected : Except Exc (List SnapshotRow × List ClusterStat))
    (ledger : Except Exc Table)
    (compute : List SnapshotRow → List ClusterStat → Table → Except Exc (Payloads Bytes)) :
    Prepared Bytes :=
  match collected with
  | .error e => .fail e .read []
  | .ok (rows, stats) =>
      if stats.any ClusterStat.ok then
        match ledger with
        | .error e => .fail e .read stats
        | .ok stored =>
            match compute rows stats stored with
            | .error e => .fail e .compute stats
            | .ok payloads => .ready payloads stats
      else .skip stats

/-- The read and compute phases, with the response to the GET of the ledger. -/
def prepare (cfg : Config) (now : Stamp) (uuid : UuidHex) (answers : Answers cfg.clusters)
    (getRuns : Except Exc Bytes) : Prepared Bytes :=
  inPhases (fetchWorkflows py now.text answers.entries) (readLedger py getRuns)
    (compute py cfg now uuid)

/-! ## Publish phase -/

/-- One PUT to make: the name of the object, its bytes, and how the PUT ends. -/
structure Upload (Bytes : Type) where
  name : String
  data : Bytes
  outcome : PutOutcome

/-- Upload in order, each object under the key of its name, stopping at the first failure; the
    result names the objects uploaded so far. -/
def publish (key : String → String) (store : ObjectStore Bytes) (published : List String) :
    List (Upload Bytes) → Except (Exc × List String) Unit × ObjectStore Bytes
  | [] => (.ok (), store)
  | upload :: uploads =>
      match uploadBytes store upload.outcome (key upload.name) upload.data with
      | (.ok (), store') => publish key store' (published ++ [upload.name]) uploads
      | (.error e, store') => (.error (e, published), store')

def uploads {cfg : Config} (inputs : CycleInputs cfg) (payloads : Payloads Bytes) :
    List (Upload Bytes) :=
  [⟨"workflows.parquet", payloads.workflows, inputs.putWorkflows⟩,
   ⟨"runs.parquet", payloads.runs, inputs.putRuns⟩,
   ⟨"meta.json", payloads.meta, inputs.putMeta⟩]

/-- How a cycle ends: `True`, `False` after logging, or the exception it raises. -/
inductive CycleOutcome where
  | published
  | skipped (logged : CycleFailure)
  | raised (e : Exc) (context : CycleFailure)

/-- The end of a cycle that got to its publish phase. -/
def afterPublish (cfg : Config) (stats : List ClusterStat) :
    Except (Exc × List String) Unit × ObjectStore Bytes → CycleOutcome × ObjectStore Bytes
  | (.ok (), store) => (.published, store)
  | (.error (e, published), store) =>
      (.raised e (cycleFailure cfg .publish stats published), store)

@[simp] theorem afterPublish_store (cfg : Config) (stats : List ClusterStat)
    (result : Except (Exc × List String) Unit × ObjectStore Bytes) :
    (afterPublish cfg stats result).2 = result.2 := by
  obtain ⟨outcome, store⟩ := result
  cases outcome <;> rfl

theorem afterPublish_eq_published {cfg : Config} {stats : List ClusterStat}
    {result : Except (Exc × List String) Unit × ObjectStore Bytes}
    (h : (afterPublish cfg stats result).1 = .published) : result.1 = .ok () := by
  obtain ⟨outcome, store⟩ := result
  cases outcome with
  | ok => rfl
  | error failure => exact absurd h (by simp [afterPublish])

/-- `_run_cycle`. -/
def runCycle (cfg : Config) (inputs : CycleInputs cfg) (store : ObjectStore Bytes) :
    CycleOutcome × ObjectStore Bytes :=
  let getRuns := getObject store inputs.getRuns (objectKey cfg.destPrefix "runs.parquet")
  match prepare py cfg inputs.now inputs.uuid inputs.answers getRuns with
  | .skip stats => (.skipped (nothingAnswered cfg stats), store)
  | .fail e phase stats => (.raised e (cycleFailure cfg phase stats []), store)
  | .ready payloads stats =>
      afterPublish cfg stats
        (publish (objectKey cfg.destPrefix) store [] (uploads inputs payloads))

/-! ## What the phases do -/

theorem compute_eq_ok {cfg : Config} {now : Stamp} {uuid : UuidHex} {rows : List SnapshotRow}
    {stats : List ClusterStat} {stored : Table} {payloads : Payloads Bytes}
    (h : compute py cfg now uuid rows stats stored = .ok payloads) :
    ∃ merged, Ledger.merge py (stored.toPylist.map LedgerRow.ofRecord) rows now.text
        cfg.runRetentionDays = .ok merged ∧
      tableToParquetBytes py (rows.map SnapshotRow.toRecord) workflowsSchema
        (some (generationId now uuid)) = .ok payloads.workflows ∧
      tableToParquetBytes py (merged.map LedgerRow.toRecord) runsSchema
        (some (generationId now uuid)) = .ok payloads.runs ∧
      MetaSchema.validate py (sidecar cfg now uuid stats rows.length merged.length) = .ok () ∧
      py.jsonDumps (sidecar cfg now uuid stats rows.length merged.length) = .ok payloads.meta := by
  unfold compute at h
  obtain ⟨merged, hmerge, h⟩ := bind_eq_ok.mp h
  obtain ⟨workflows, hworkflows, h⟩ := bind_eq_ok.mp h
  obtain ⟨runs, hruns, h⟩ := bind_eq_ok.mp h
  obtain ⟨_, hvalid, h⟩ := bind_eq_ok.mp h
  obtain ⟨metaPayload, hmeta, h⟩ := bind_eq_ok.mp h
  rw [pure_eq_ok, Except.ok.injEq] at h
  subst h
  exact ⟨merged, hmerge, hworkflows, hruns, hvalid, hmeta⟩

section Phases

variable {collected : Except Exc (List SnapshotRow × List ClusterStat)} {ledger : Except Exc Table}
  {computed : List SnapshotRow → List ClusterStat → Table → Except Exc (Payloads Bytes)}

/-- A cycle gets to its first PUT when some cluster answered and both phases succeed. -/
theorem inPhases_eq_ready_iff {payloads : Payloads Bytes} {stats : List ClusterStat} :
    inPhases collected ledger computed = .ready payloads stats ↔
      ∃ rows stored, collected = .ok (rows, stats) ∧ stats.any ClusterStat.ok = true ∧
        ledger = .ok stored ∧ computed rows stats stored = .ok payloads := by
  constructor
  · intro h
    -- each phase that fails ends the cycle before the next one
    cases collected with
    | error e => simp [inPhases] at h
    | ok pair =>
        obtain ⟨rows, stats'⟩ := pair
        cases hany : stats'.any ClusterStat.ok with
        | false => simp [inPhases, hany] at h
        | true =>
            cases ledger with
            | error e => simp [inPhases, hany] at h
            | ok stored =>
                cases hcomputed : computed rows stats' stored with
                | error e => simp [inPhases, hany, hcomputed] at h
                | ok payloads' =>
                    simp only [inPhases, hany, if_true, hcomputed, Prepared.ready.injEq] at h
                    obtain ⟨rfl, rfl⟩ := h
                    exact ⟨rows, stored, rfl, hany, rfl, hcomputed⟩
  · rintro ⟨rows, stored, rfl, hany, rfl, hcomputed⟩
    simp only [inPhases, hany, if_true, hcomputed]

end Phases

theorem prepare_eq_ready_iff {cfg : Config} {now : Stamp} {uuid : UuidHex}
    {answers : Answers cfg.clusters} {getRuns : Except Exc Bytes} {payloads : Payloads Bytes}
    {stats : List ClusterStat} :
    prepare py cfg now uuid answers getRuns = .ready payloads stats ↔
      ∃ rows stored, fetchWorkflows py now.text answers.entries = .ok (rows, stats) ∧
        stats.any ClusterStat.ok = true ∧ readLedger py getRuns = .ok stored ∧
        compute py cfg now uuid rows stats stored = .ok payloads := by
  rw [prepare, inPhases_eq_ready_iff]

/-- Every object of a publication has a key of its own. -/
theorem objectKey_injective (pfx : String) : Function.Injective (objectKey pfx) := by
  intro a b h
  simp only [objectKey] at h
  by_cases hp : Config.normalizeS3Prefix pfx = ""
  · rw [if_pos hp, if_pos hp] at h
    exact h
  · rw [if_neg hp, if_neg hp, ← String.toList_inj] at h
    simp only [String.toList_append] at h
    exact String.toList_inj.mp (List.append_cancel_left h)

end ArgoExporter.Main
