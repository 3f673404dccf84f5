/-
  ArgoExporter.Config

  `config.py`: the environment variables, the cluster list and the values
  `load` accepts.
-/

import ArgoExporter.Py.Platform
import ArgoExporter.Py.Text

namespace ArgoExporter

open ArgoExporter.Py

/-! ## Values -/

/-- A polled cluster; without a `baseUrl` it is the one this pod runs in, without a namespace it
    inherits `WORKFLOW_NAMESPACE`. -/
structure Cluster where
  name : String
  baseUrl : Option String
  «namespace» : Option String
  deriving DecidableEq

structure S3Endpoint where
  endpointUrl : String
  accessKeyId : String
  secretAccessKey : String
  bucket : String
  addressingStyle : String
  region : String

structure Config where
  clusters : List Cluster
  «namespace» : String
  dest : S3Endpoint
  destPrefix : String
  version : String
  pollIntervalSeconds : Int
  runRetentionDays : Int
  httpTimeoutSeconds : Int
  pageSize : Int
  healthPort : Int
  logLevel : String

namespace Config

/-! ## Environment variables -/

/-- `os.environ`. -/
abbrev Environ := String → Option String

def requireVar (environ : Environ) (name : String) : Except Exc String :=
  let value := strip ((environ name).getD "")
  if value = "" then raise .configError s!"missing required env var: {name}" else .ok value

def optionalVar (environ : Environ) (name default : String) : String :=
  let value := strip ((environ name).getD "")
  if value = "" then default else value

/-- Canonical form of an S3 key prefix: outer white space off, then outer slashes. -/
def normalizeS3Prefix (pfx : String) : String := stripChar '/' (strip pfx)

/-! ## `CLUSTERS_JSON` -/

section Clusters

variable {Bytes : Type} (py : Platform Bytes)

/-- `str(value)`. -/
def strOf : Json → String
  | .str s => s
  | v => py.repr v

/-- A string field that may be missing or null. -/
def optionalField (index : Nat) (item : Json) (field : String) : Except Exc (Option String) :=
  match item.get field with
  | .null => .ok none
  | .str s => .ok (some s)
  | _ =>
      raise .configError
        s!"CLUSTERS_JSON entry {index} {field} must be a string or null: {strOf py item}"

def parseCluster (index : Nat) (item : Json) : Except Exc Cluster := do
  if ¬ item.isDict then
    raise .configError s!"CLUSTERS_JSON entry {index} is not an object: {strOf py item}"
  else if ¬ item.has "name" then
    raise .configError s!"CLUSTERS_JSON entry missing required key 'name': {strOf py item}"
  else
    match item.get "name" with
    | .str name =>
        if name = "" then
          raise .configError
            s!"CLUSTERS_JSON entry {index} name must be a non-empty string: {strOf py item}"
        else
          let baseUrl ← optionalField py index item "base_url"
          let ns ← optionalField py index item "namespace"
          return ⟨name, baseUrl, ns⟩
    | _ =>
        raise .configError
          s!"CLUSTERS_JSON entry {index} name must be a non-empty string: {strOf py item}"

def parseClusterEntries : Nat → List Json → Except Exc (List Cluster)
  | _, [] => .ok []
  | index, item :: items => do
      let cluster ← parseCluster py index item
      let rest ← parseClusterEntries (index + 1) items
      return cluster :: rest

/-- `len(set(names)) != len(names)`. -/
def hasDuplicates (names : List String) : Bool := ¬ names.Nodup

/-- `json.loads(raw)` with invalid JSON reported as a configuration error. -/
def loadsConfig (raw : String) : Except Exc Json :=
  match py.jsonLoadsText raw with
  | .ok items => .ok items
  | .error e =>
      if e.cls = .jsonDecodeError then
        raise .configError s!"CLUSTERS_JSON is not valid JSON: {e.msg}"
      else .error e

def parseClusters (raw : String) : Except Exc (List Cluster) := do
  match ← loadsConfig py raw with
  | .arr [] =>
      raise .configError
        "CLUSTERS_JSON must be a non-empty JSON array; at least one cluster is required"
  | .arr items => do
      let clusters ← parseClusterEntries py 0 items
      let names := clusters.map Cluster.name
      let local_ := clusters.filter fun c => c.baseUrl.isNone
      if hasDuplicates names then
        raise .configError
          s!"CLUSTERS_JSON has duplicate cluster names: {py.repr (.arr (names.map .str))}"
      else if 1 < local_.length then
        raise .configError (s!"CLUSTERS_JSON has {local_.length} entries with no base_url; at " ++
          "most one (the cluster this pod runs in) may omit it: " ++
          py.repr (.arr (local_.map fun c => .str c.name)))
      else return clusters
  | _ => raise .configError "CLUSTERS_JSON must be a JSON array"

/-! ## `load` -/

/-- The release in a version file, `"unknown"` if the file is missing, unreadable or empty. -/
def readVersion (versionFile : Except Exc String) : Except Exc String :=
  match versionFile with
  | .ok text => .ok (if strip text = "" then "unknown" else strip text)
  | .error e => if e.cls.isOSError ∨ e.cls.isUnicodeError then .ok "unknown" else .error e

def positiveInt (environ : Environ) (name default : String) : Except Exc Int :=
  let raw := optionalVar environ name default
  match int? raw with
  | none => raise .configError s!"{name} must be an integer, got {py.repr (.str raw)}"
  | some value =>
      if value ≤ 0 then
        raise .configError s!"{name} must be greater than zero, got {value}"
      else .ok value

def runRetentionDaysVar (environ : Environ) : Except Exc Int :=
  positiveInt py environ "RUN_RETENTION_DAYS" "7"

/-- Accepted log levels, sorted, with the level each one selects. -/
def logLevelAliases : List (String × String) :=
  [("CRITICAL", "CRITICAL"), ("DEBUG", "DEBUG"), ("ERROR", "ERROR"), ("FATAL", "CRITICAL"),
   ("INFO", "INFO"), ("NOTSET", "NOTSET"), ("WARN", "WARNING"), ("WARNING", "WARNING")]

def logLevelVar (environ : Environ) : Except Exc String :=
  let raw := py.upper (optionalVar environ "LOG_LEVEL" "INFO")
  match logLevelAliases.lookup raw with
  | some level => .ok level
  | none =>
      let allowed := ", ".intercalate (logLevelAliases.map Prod.fst)
      raise .configError s!"LOG_LEVEL must be one of {allowed}, got {py.repr (.str raw)}"

def s3AddressingStyles : List String := ["auto", "virtual", "path"]

def s3AddressingStyleVar (environ : Environ) : Except Exc String :=
  let raw := optionalVar environ "DEST_S3_ADDRESSING_STYLE" "virtual"
  if s3AddressingStyles.contains raw then .ok raw
  else
    let allowed := ", ".intercalate s3AddressingStyles
    raise .configError
      s!"DEST_S3_ADDRESSING_STYLE must be one of {allowed}, got {py.repr (.str raw)}"

/-- The configuration an environment and a version file give. -/
def load (environ : Environ) (versionFile : String → Except Exc String) : Except Exc Config := do
  let clusters ← parseClusters py (← requireVar environ "CLUSTERS_JSON")
  let endpointUrl ← requireVar environ "DEST_S3_ENDPOINT"
  let accessKeyId ← requireVar environ "DEST_S3_ACCESS_KEY_ID"
  let secretAccessKey ← requireVar environ "DEST_S3_SECRET_ACCESS_KEY"
  let bucket ← requireVar environ "DEST_S3_BUCKET"
  let addressingStyle ← s3AddressingStyleVar py environ
  let region := optionalVar environ "DEST_S3_REGION" "us-east-1"
  let version ← readVersion (versionFile (optionalVar environ "VERSION_FILE" "VERSION"))
  let pollIntervalSeconds ← positiveInt py environ "POLL_INTERVAL_SECONDS" "300"
  let retentionDays ← runRetentionDaysVar py environ
  let httpTimeoutSeconds ← positiveInt py environ "HTTP_TIMEOUT_SECONDS" "10"
  let pageSize ← positiveInt py environ "LIST_PAGE_SIZE" "500"
  let healthPort ← positiveInt py environ "HEALTH_PORT" "8080"
  let level ← logLevelVar py environ
  return {
    clusters := clusters
    «namespace» := optionalVar environ "WORKFLOW_NAMESPACE" ""
    dest := ⟨endpointUrl, accessKeyId, secretAccessKey, bucket, addressingStyle, region⟩
    -- an omitted variable gets the default, an explicitly empty one selects the bucket root
    destPrefix := normalizeS3Prefix ((environ "DEST_S3_PREFIX").getD "argo/data")
    version := version
    pollIntervalSeconds := pollIntervalSeconds
    runRetentionDays := retentionDays
    httpTimeoutSeconds := httpTimeoutSeconds
    pageSize := pageSize
    healthPort := healthPort
    logLevel := level }

end Clusters

end Config

end ArgoExporter
