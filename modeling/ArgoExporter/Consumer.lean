/-
  ArgoExporter.Consumer

  `consumer.py`: freshness of a sidecar, the decision whether three downloaded
  objects are one generation, reading a publication, and the current rows of a
  selected one.  A read gets its three GET responses as inputs, so they may
  come from a store that changes between them.
-/

import ArgoExporter.MetaSchema
import ArgoExporter.ParquetIo
import ArgoExporter.Py.Number
import ArgoExporter.S3io

namespace ArgoExporter.Consumer

open ArgoExporter.Py
open ArgoExporter.ParquetIo
open ArgoExporter.S3io

/-! ## Results -/

/-- The downloaded objects of one candidate; a missing object is `none`. -/
structure Publication (Bytes : Type) where
  «meta» : Json
  workflows : Option Bytes
  runs : Option Bytes

inductive PublicationStatus where
  | fresh
  | fallback
  | noPublication
  deriving DecidableEq

inductive PublicationReason where
  | missing
  | invalid
  | stale
  | incomplete
  | torn
  deriving DecidableEq

structure PublicationResult (Bytes : Type) where
  publication : Option (Publication Bytes)
  status : PublicationStatus
  reason : Option PublicationReason

/-! ## Freshness -/

/-- `max_cycle_seconds` as a finite number that is not negative. -/
def checkMaxCycle (maxCycleSeconds : Json) : Except Exc Unit :=
  let reject := raise .valueError "max_cycle_seconds must be a finite non-negative number"
  match maxCycleSeconds with
  | .int n => do
      let _ ← PyFloat.ofInt n
      if n < 0 then reject else return ()
  | .float x => if x.isFinite ∧ ¬ x.lt (.fin 0) then return () else reject
  | _ => reject

/-- `float(max_cycle_seconds + poll_interval)`. -/
def addSeconds (maxCycleSeconds : Json) (pollInterval : Int) : Except Exc PyFloat :=
  match maxCycleSeconds with
  | .int n => PyFloat.ofInt (n + pollInterval)
  | .float x => do return x.add (← PyFloat.ofInt pollInterval)
  | _ => raise .typeError "unsupported operand type(s) for +"

/-- The threshold of the effective cadence: longest cycle plus poll interval. -/
def freshnessThresholdSeconds (metaJson maxCycleSeconds : Json) : Except Exc PyFloat := do
  checkMaxCycle maxCycleSeconds
  match metaJson.get "poll_interval_seconds" with
  | .int pollInterval =>
      if pollInterval < 1 then
        raise .valueError "meta.poll_interval_seconds must be a positive integer"
      else addSeconds maxCycleSeconds pollInterval
  | _ => raise .valueError "meta.poll_interval_seconds must be a positive integer"

/-- `(now - generated).total_seconds()`. -/
def totalSeconds (now generated : Naive) : PyFloat :=
  PyFloat.ofRat (((now.micros : Int) - generated.micros : Int) / microsPerSecond)

/-- The age of a sidecar at `now`. -/
def freshnessAgeSeconds (metaJson : Json) (now : DateTime) : Except Exc PyFloat :=
  let reject := raise .valueError "meta.generated_at must be a UTC timestamp string"
  match now.utcoffset with
  | none => raise .valueError "now must be a timezone-aware datetime"
  | some offset =>
      match metaJson.get "generated_at" with
      | .str generatedAt =>
          match strptime generatedAt with
          | some generated => do return totalSeconds (← astimezoneUtc now.naive offset) generated
          | none => reject
      | _ => reject

/-- Whether a sidecar is younger than one effective cadence; equality is stale. -/
def isFresh (metaJson : Json) (now : DateTime) (maxCycleSeconds : Json) : Except Exc Bool := do
  let age ← freshnessAgeSeconds metaJson now
  let threshold ← freshnessThresholdSeconds metaJson maxCycleSeconds
  return age.lt threshold

/-! ## Selection -/

variable {Bytes : Type} (py : Platform Bytes)

/-- Whether a sidecar passes the schema; the errors of a malformed one are caught. -/
def validMeta (metaJson : Json) : Except Exc Bool :=
  match MetaSchema.validate py metaJson with
  | .ok () => .ok true
  | .error e =>
      if e.cls = .typeError ∨ e.cls.isValueError ∨ e.cls = .metaSchemaError then .ok false
      else .error e

/-- The generation id in a footer; any failure to read it counts as a missing id. -/
def footerGenerationId (data : Option Bytes) : Option String :=
  match data with
  | none => none
  | some data =>
      match readGenerationId py data with
      | .ok id => id
      | .error _ => none

/-- The generation id of a sidecar. -/
def metaGenerationId (metaJson : Json) : Option String :=
  match metaJson.get "generation_id" with
  | .str id => if id = "" then none else some id
  | _ => none

/-- The ids of the sidecar and the two footers, in that order. -/
def generationIds (candidate : Publication Bytes) : Option String × Option String × Option String :=
  (metaGenerationId candidate.meta, footerGenerationId py candidate.workflows,
    footerGenerationId py candidate.runs)

/-- Why the three objects are not one complete generation, if they are not. -/
def generationRejectionReason (candidate : Option (Publication Bytes)) :
    Except Exc (Option PublicationReason) :=
  match candidate with
  | none => .ok (some .missing)
  | some candidate => do
      if ¬ (← validMeta py candidate.meta) then return some .invalid
      else if candidate.workflows.isNone ∨ candidate.runs.isNone then return some .incomplete
      else
        match generationIds py candidate with
        | (some metaId, some workflowsId, some runsId) =>
            let start := (candidate.meta.get "generated_at").orEmpty ++ "-"
            if ¬ (metaId = workflowsId ∧ workflowsId = runsId) then return some .torn
            else if ¬ start.toList.isPrefixOf metaId.toList then return some .torn
            else return none
        | _ => return some .incomplete

def retainedResult (lastComplete : Option (Publication Bytes)) (reason : PublicationReason) :
    PublicationResult Bytes :=
  ⟨lastComplete, if lastComplete.isSome then .fallback else .noPublication, some reason⟩

/-- A freshness check: `max_cycle_seconds` and the current time. -/
structure FreshnessCheck where
  maxCycleSeconds : Json
  now : DateTime

def selectGenerationResult (candidate lastComplete : Option (Publication Bytes))
    (freshness : Option FreshnessCheck) : Except Exc (PublicationResult Bytes) := do
  match ← generationRejectionReason py candidate, candidate with
  | some reason, _ => return retainedResult lastComplete reason
  | none, none => return retainedResult lastComplete .missing
  | none, some publication =>
      match freshness with
      | none => return ⟨candidate, .fresh, none⟩
      | some check =>
          if ← isFresh publication.meta check.now check.maxCycleSeconds then
            return ⟨candidate, .fresh, none⟩
          else return retainedResult lastComplete .stale

/-! ## Reading -/

/-- Key of one object of a publication. -/
def key (pfx name : String) : String := objectKey pfx name

/-- The errors that make a sidecar invalid rather than fail the read. -/
def caughtByMarker (cls : ExcClass) : Bool :=
  cls = .typeError ∨ cls.isValueError ∨ cls = .unicodeDecodeError ∨ cls = .metaSchemaError

/-- Decode and validate a sidecar. -/
def parseMarker (data : Bytes) : Except Exc Json := do
  let metaJson ← py.jsonLoads data
  MetaSchema.validate py metaJson
  return metaJson

/-- The decision after the first GET: a retained result, or the sidecar to go on with. -/
def checkMarker (marker : Option Bytes) (lastComplete : Option (Publication Bytes))
    (freshness : Option FreshnessCheck) : Except Exc (PublicationResult Bytes ⊕ Json) :=
  match marker with
  | none => .ok (.inl (retainedResult lastComplete .missing))
  | some data =>
      match parseMarker py data with
      | .error e =>
          if caughtByMarker e.cls then .ok (.inl (retainedResult lastComplete .invalid))
          else .error e
      | .ok metaJson =>
          match freshness with
          | none => .ok (.inr metaJson)
          | some check => do
              let age ← freshnessAgeSeconds metaJson check.now
              let threshold ← freshnessThresholdSeconds metaJson check.maxCycleSeconds
              if age.lt threshold then return .inr metaJson
              else return .inl (retainedResult lastComplete .stale)

/-- A read with the responses of its GETs for the marker, the snapshot and the ledger; the last two
    are only made when the marker is accepted. -/
def readGenerationResult (getMeta getWorkflows getRuns : Except Exc Bytes)
    (lastComplete : Option (Publication Bytes)) (freshness : Option FreshnessCheck) :
    Except Exc (PublicationResult Bytes) := do
  match ← checkMarker py (← downloadBytes getMeta) lastComplete freshness with
  | .inl result => return result
  | .inr metaJson =>
      let workflows ← downloadBytes getWorkflows
      let runs ← downloadBytes getRuns
      selectGenerationResult py (some ⟨metaJson, workflows, runs⟩) lastComplete none

/-- A read of a store that does not change meanwhile and serves every GET. -/
def readStore (store : ObjectStore Bytes) (pfx : String)
    (lastComplete : Option (Publication Bytes)) (freshness : Option FreshnessCheck) :
    Except Exc (PublicationResult Bytes) :=
  readGenerationResult py (getObject store .served (key pfx "meta.json"))
    (getObject store .served (key pfx "workflows.parquet"))
    (getObject store .served (key pfx "runs.parquet")) lastComplete freshness

/-! ## Current rows -/

/-- One entry of the availability map. -/
def availabilityEntry (seen : List (String × Bool)) (index : Nat) (cluster : Json) :
    Except Exc (String × Bool) :=
  if ¬ cluster.isDict then
    raise .valueError s!"publication.meta.clusters[{index}] must be a mapping"
  else
    match cluster.get "name", cluster.get "ok" with
    | .str name, ok =>
        if name = "" then
          raise .valueError s!"publication.meta.clusters[{index}].name must be non-empty"
        else
          match ok with
          | .bool ok =>
              if name ∈ seen.map Prod.fst then
                raise .valueError
                  s!"publication.meta.clusters contains duplicate name {py.repr (.str name)}"
              else .ok (name, ok)
          | _ => raise .valueError s!"publication.meta.clusters[{index}].ok must be a boolean"
    | _, _ => raise .valueError s!"publication.meta.clusters[{index}].name must be non-empty"

/-- The entries of `clusters`, `seen` being those of the clusters before them. -/
def availabilityEntries (seen : List (String × Bool)) : Nat → List Json →
    Except Exc (List (String × Bool))
  | _, [] => .ok seen
  | index, cluster :: clusters => do
      let entry ← availabilityEntry py seen index cluster
      availabilityEntries (seen ++ [entry]) (index + 1) clusters

/-- Availability by cluster, in the order of the sidecar. -/
def clusterAvailability (publication : Publication Bytes) : Except Exc (List (String × Bool)) :=
  if ¬ publication.meta.isDict then raise .valueError "publication.meta must be a mapping"
  else
    match publication.meta.get "clusters" with
    | .arr clusters => availabilityEntries py [] 0 clusters
    | _ => raise .valueError "publication.meta.clusters must be a list"

/-- A cell that is one of the names. -/
def isOneOf (names : List String) (cell : Json) : Bool :=
  match cell with
  | .str name => names.contains name
  | _ => false

/-- The snapshot rows of the clusters the sidecar calls available. -/
def currentSnapshotRows (publication : Publication Bytes) : Except Exc (List Record) := do
  let table ← parquetBytesToTable py publication.workflows workflowsSchema
  if ¬ publication.meta.isDict ∨ ¬ publication.meta.has "clusters" then return table.toPylist
  else
    let availability ← clusterAvailability py publication
    let available := (availability.filter Prod.snd).map Prod.fst
    return table.toPylist.filter fun row => isOneOf available (Record.get row "cluster")

/-- The ledger rows. -/
def historicalRunRows (publication : Publication Bytes) : Except Exc (List Record) := do
  let table ← parquetBytesToTable py publication.runs runsSchema
  return table.toPylist

end ArgoExporter.Consumer
