/-
  ArgoExporter.Workflows

  `workflows.py`: validation of one Workflow object, extraction of its row,
  and collection over all clusters.
-/

import ArgoExporter.FailureTaxonomy
import ArgoExporter.K8sApi
import ArgoExporter.ParquetIo
import ArgoExporter.Py.Datetime
import ArgoExporter.Py.Number
import Mathlib.Data.List.MinMax
import Mathlib.Data.Prod.Lex
import Mathlib.Data.String.Basic
import Mathlib.Order.Nat

namespace ArgoExporter.Workflows

open ArgoExporter.Lib
open ArgoExporter.Py
open ArgoExporter.ParquetIo

def labelTemplate : String := "workflows.argoproj.io/workflow-template"
def labelClusterTemplate : String := "workflows.argoproj.io/cluster-workflow-template"
def labelCron : String := "workflows.argoproj.io/cron-workflow"
def labelCreator : String := "workflows.argoproj.io/creator"
def labelSensor : String := "events.argoproj.io/sensor"
def labelTrigger : String := "events.argoproj.io/trigger"

def terminalNodePhases : List String := ["Failed", "Error"]

variable {Bytes : Type} (py : Platform Bytes)

/-! ## Validation -/

def malformed {α : Type} (location detail : String) : Except Exc α :=
  raise .malformedWorkflowError s!"{location}: {detail}"

def workflowLocation (index : Option Nat) : String :=
  match index with
  | some i => s!"items[{i}]"
  | none => "workflow"

def requireWorkflowMapping (value : Json) (location field : String) : Except Exc Unit :=
  if value.isDict then .ok ()
  else malformed location s!"'{field}' must be a JSON object, got {value.typeName}"

/-- A string that is not blank, or, when not required, any string or null. -/
def requireWorkflowString (value : Json) (location field : String) (required : Bool) :
    Except Exc Unit :=
  match value with
  | .null => if required then malformed location s!"'{field}' must be a non-empty string" else .ok ()
  | .str s =>
      if required ∧ strip s = "" then malformed location s!"'{field}' must be a non-empty string"
      else .ok ()
  | _ =>
      let requirement := if required then "non-empty string" else "string or null"
      malformed location s!"'{field}' must be a {requirement}"

/-- The fields of `value` among `names` that are present are strings or null. -/
def requireOptionalStrings (value : Json) (location pfx : String) (names : List String) :
    Except Exc Unit :=
  names.forM fun field =>
    if value.has field then
      requireWorkflowString (value.get field) location s!"{pfx}.{field}" false
    else .ok ()

def validateMetadata (metadata : Json) (location : String) : Except Exc Unit := do
  requireWorkflowMapping metadata location "metadata"
  ["uid", "name", "namespace"].forM fun field =>
    requireWorkflowString (metadata.get field) location s!"metadata.{field}" true
  let labels := metadata.get "labels"
  if labels.isNull then return ()
  else
    requireWorkflowMapping labels location "metadata.labels"
    labels.fields.forM fun e =>
      requireWorkflowString e.2 location s!"metadata.labels[{py.repr (.str e.1)}]" true

def validateSpec (spec : Json) (location : String) : Except Exc Unit := do
  requireWorkflowMapping spec location "spec"
  let ref := spec.get "workflowTemplateRef"
  if ref.isNull then return ()
  else
    requireWorkflowMapping ref location "spec.workflowTemplateRef"
    requireWorkflowString (ref.get "name") location "spec.workflowTemplateRef.name" true
    if ref.has "clusterScope" ∧ ¬ (ref.get "clusterScope").isBool then
      malformed location "'spec.workflowTemplateRef.clusterScope' must be a boolean"
    else return ()

def validateResources (resources : Json) (location : String) : Except Exc Unit := do
  if resources.isNull then return ()
  else
    requireWorkflowMapping resources location "status.resourcesDuration"
    ["cpu", "memory"].forM fun field =>
      if resources.has field ∧ ¬ (resources.get field).isInt then
        malformed location s!"'status.resourcesDuration.{field}' must be an integer"
      else .ok ()

/-- The fields the exporter reads of a node. -/
def nodeFields : List String := ["phase", "type", "displayName", "name", "startedAt", "message"]

def validateNodes (nodes : Json) (location : String) : Except Exc Unit := do
  if nodes.isNull then return ()
  else
    requireWorkflowMapping nodes location "status.nodes"
    nodes.fields.forM fun e => do
      requireWorkflowMapping e.2 location s!"status.nodes[{py.repr (.str e.1)}]"
      requireOptionalStrings e.2 location s!"status.nodes[{py.repr (.str e.1)}]" nodeFields

def validateStatus (status : Json) (location : String) : Except Exc Unit := do
  if status.isNull then return ()
  else
    requireWorkflowMapping status location "status"
    requireOptionalStrings status location "status"
      ["phase", "message", "progress", "startedAt", "finishedAt"]
    validateResources (status.get "resourcesDuration") location
    validateNodes py (status.get "nodes") location

/-- Reject a list item that cannot become a row. -/
def validateWorkflow (wf : Json) (index : Option Nat) : Except Exc Unit := do
  let location := workflowLocation index
  if ¬ wf.isDict then
    malformed location s!"expected a JSON object, got {wf.typeName}"
  else
    validateMetadata py (wf.get "metadata") location
    validateSpec (wf.get "spec") location
    validateStatus py (wf.get "status") location

/-! ## Timestamps -/

def parseTs (value : Json) : Option DateTime :=
  match value with
  | .str s => if s = "" then none else fromisoformat (replaceZulu s)
  | _ => none

/-- The UTC text of a timestamp, null when it is unusable or has no zone. -/
def normalizeTimestamp (value : Json) : Except Exc (Option String) :=
  match parseTs value with
  | some ⟨naive, some offset⟩ => do return some (isoformatZ (← astimezoneUtc naive offset))
  | _ => .ok none

/-- `(finish - start).total_seconds()`: the double nearest to the exact quotient. -/
def totalSecondsBetween (finish start : Naive) : Rat :=
  Binary64.round (((finish.micros : Int) - start.micros : Int) / microsPerSecond)

/-- Whole seconds from start to finish, null unless both are usable. -/
def durationSeconds (startedAt finishedAt : Json) : Except Exc (Option Int) :=
  match parseTs startedAt, parseTs finishedAt with
  | some ⟨start, some startOffset⟩, some ⟨finish, some finishOffset⟩ => do
      let finishUtc ← astimezoneUtc finish finishOffset
      let startUtc ← astimezoneUtc start startOffset
      return some (truncate (totalSecondsBetween finishUtc startUtc))
  | _, _ => .ok none

/-! ## Extractors -/

/-- `value or {}`. -/
def orEmptyDict (value : Json) : Json := value.or (.obj [])

/-- The template a run came from, as name and scope. -/
def templateOf (wf : Json) : Json × Json :=
  let ref := orEmptyDict ((orEmptyDict (wf.get "spec")).get "workflowTemplateRef")
  let labels := orEmptyDict ((orEmptyDict (wf.get "metadata")).get "labels")
  if (ref.get "name").truthy then
    (ref.get "name", .str (if (ref.get "clusterScope").truthy then "cluster" else "namespaced"))
  else if (labels.get labelClusterTemplate).truthy then
    (labels.get labelClusterTemplate, .str "cluster")
  else if (labels.get labelTemplate).truthy then
    (labels.get labelTemplate, .str "namespaced")
  else (.null, .null)

/-- The value of a label that is a string and not blank. -/
def nonEmptyLabel (labels : Json) (name : String) : Option String :=
  match labels.get name with
  | .str s => if strip s = "" then none else some s
  | _ => none

/-- What caused a run, as kind and name. -/
def triggerOf (wf : Json) : Option (String × String) :=
  let labels := orEmptyDict ((orEmptyDict (wf.get "metadata")).get "labels")
  match nonEmptyLabel labels labelCron with
  | some cron => some ("cron", cron)
  | none =>
      match nonEmptyLabel labels labelSensor with
      | some sensor => some ("event", (nonEmptyLabel labels labelTrigger).getD sensor)
      | none => (nonEmptyLabel labels labelCreator).map fun creator => ("user", creator)

/-- The exceptions that mark `compressedNodes` as malformed; any other one propagates. -/
def caughtByNodeDecoder (cls : ExcClass) : Bool :=
  cls = .binasciiError ∨ cls = .eofError ∨ cls.isOSError ∨ cls = .typeError ∨
    cls.isUnicodeError ∨ cls.isValueError

/-- Base64, then gzip, then JSON. -/
def decodeNodeText (value : String) : Except Exc Json := do
  let compressed ← py.b64decode value
  let text ← py.gzipDecompress compressed
  py.jsonLoads text

/-- The node map of a `compressedNodes` field, empty if it is malformed. -/
def decodeCompressedNodes (value : Json) : Except Exc (List (String × Json)) :=
  match value with
  | .str s =>
      if s = "" then .ok []
      else
        match decodeNodeText py s with
        | .error e => if caughtByNodeDecoder e.cls then .ok [] else .error e
        | .ok (.obj entries) => .ok (entries.filter fun e => e.2.isDict)
        | .ok _ => .ok []
  | _ => .ok []

/-- A pod node that ended in failure. -/
def isFailingPod (node : Json) : Bool :=
  node.isDict &&
    (match node.get "phase" with
      | .str phase => terminalNodePhases.contains phase
      | _ => false) &&
    (match node.get "type" with
      | .str type => type = "Pod"
      | _ => false)

/-- Order of failing nodes: timestamped ones first, by UTC instant, then by node key. -/
abbrev SelectionKey := Nat ×ₗ Nat ×ₗ String

def selectionKey (entry : String × Json) : Except Exc SelectionKey :=
  match parseTs (entry.2.get "startedAt") with
  | some ⟨naive, some offset⟩ => do
      let utc ← astimezoneUtc naive offset
      return toLex (0, toLex (utc.micros, entry.1))
  | _ => .ok (toLex (1, toLex (Naive.max.micros, entry.1)))

/-- The node map `failed_step` looks at. -/
def nodesOf (status : Json) : Except Exc (List (String × Json)) :=
  match status.get "nodes" with
  | .null => decodeCompressedNodes py (status.get "compressedNodes")
  | .obj entries => .ok entries
  | _ => .ok []

/-- Display name and message of the step that failed. -/
def failedStep (wf : Json) : Except Exc (Json × Json) := do
  let nodes ← nodesOf py (orEmptyDict (wf.get "status"))
  let failures := nodes.filter fun e => isFailingPod e.2
  let keyed ← failures.mapM fun e => do return (← selectionKey e, e)
  match keyed.argmin Prod.fst with
  | none => return (.null, .null)
  | some (_, _, earliest) =>
      return ((earliest.get "displayName").or (earliest.get "name"), earliest.get "message")

/-! ## Rows -/

/-- The dict `to_row` returns, from the parts it computes. -/
def assembleRow (wf : Json) (clusterName observedAt : String) (step : Json × Json)
    (createdAt startedAt finishedAt : Option String) (duration : Option Int) : SnapshotRow :=
  let meta_ := orEmptyDict (wf.get "metadata")
  let status := orEmptyDict (wf.get "status")
  let (template, templateScope) := templateOf wf
  let trigger := triggerOf wf
  let (stepName, stepMessage) := step
  let resources := orEmptyDict (status.get "resourcesDuration")
  let taxonomy := FailureTaxonomy.failureColumns py stepMessage (status.get "message")
  { shared := {
      uid := meta_.getD "uid" (.str "")
      cluster := .str clusterName
      «namespace» := meta_.getD "namespace" (.str "")
      name := meta_.getD "name" (.str "")
      template := template
      templateScope := templateScope
      triggerKind := Json.ofStr? (trigger.map Prod.fst)
      triggerName := Json.ofStr? (trigger.map Prod.snd)
      phase := (status.get "phase").or (.str "Pending")
      message := status.get "message"
      progress := status.get "progress"
      createdAt := Json.ofStr? createdAt
      startedAt := Json.ofStr? startedAt
      finishedAt := Json.ofStr? finishedAt
      durationSeconds := Json.ofInt? duration
      resourcesDurationCpu := resources.get "cpu"
      resourcesDurationMemory := resources.get "memory"
      failedStep := stepName
      failedStepMessage := stepMessage
      failureFingerprint := taxonomy.failureFingerprint
      failureClass := taxonomy.failureClass }
    observedAt := .str observedAt }

/-- The row of one Workflow object. -/
def toRow (wf : Json) (clusterName observedAt : String) : Except Exc SnapshotRow := do
  validateWorkflow py wf none
  let meta_ := orEmptyDict (wf.get "metadata")
  let status := orEmptyDict (wf.get "status")
  let step ← failedStep py wf
  let createdAt ← normalizeTimestamp (meta_.get "creationTimestamp")
  let startedAt ← normalizeTimestamp (status.get "startedAt")
  let finishedAt ← normalizeTimestamp (status.get "finishedAt")
  let duration ← durationSeconds (status.get "startedAt") (status.get "finishedAt")
  return assembleRow py wf clusterName observedAt step createdAt startedAt finishedAt duration

/-! ## Collection -/

/-- One cluster's entry of the collection statistics. -/
structure ClusterStat where
  name : String
  ok : Bool
  workflows : Nat
  deriving DecidableEq

/-- The path listed for a cluster. -/
def clusterPath (cluster : Cluster) (defaultNamespace : String) : String :=
  K8sApi.listPath (cluster.namespace.getD defaultNamespace) "workflows"

/-- The rows of a listing, failing at the first item that does not convert. -/
def convertItems (clusterName observedAt : String) : Nat → List Json → Except Exc (List SnapshotRow)
  | _, [] => .ok []
  | index, wf :: items => do
      validateWorkflow py wf (some index)
      let row ← toRow py wf clusterName observedAt
      let rows ← convertItems clusterName observedAt (index + 1) items
      return row :: rows

/-- What one cluster adds to the collection.  Only a malformed list response is caught around the
    listing; any exception is caught around the conversion. -/
def collectCluster (observedAt : String) (cluster : Cluster) (outcome : K8sApi.ListOutcome) :
    Except Exc (List SnapshotRow × ClusterStat) :=
  match outcome with
  | .error e =>
      if e.cls = .kubernetesResponseError then .ok ([], ⟨cluster.name, false, 0⟩) else .error e
  | .ok (_, false) => .ok ([], ⟨cluster.name, false, 0⟩)
  | .ok (items, true) =>
      match convertItems py cluster.name observedAt 0 items with
      | .error _ => .ok ([], ⟨cluster.name, false, 0⟩)
      | .ok rows => .ok (rows, ⟨cluster.name, true, rows.length⟩)

/-- One pass of the collection loop. -/
def collectStep (observedAt : String) (collected : List SnapshotRow × List ClusterStat)
    (answer : Cluster × K8sApi.ListOutcome) :
    Except Exc (List SnapshotRow × List ClusterStat) := do
  let (clusterRows, stat) ← collectCluster py observedAt answer.1 answer.2
  return (collected.1 ++ clusterRows, collected.2 ++ [stat])

/-- Rows and statistics over all clusters, each with the outcome of its listing. -/
def fetchWorkflows (observedAt : String) (answers : List (Cluster × K8sApi.ListOutcome)) :
    Except Exc (List SnapshotRow × List ClusterStat) :=
  answers.foldlM (collectStep py observedAt) ([], [])

end ArgoExporter.Workflows
