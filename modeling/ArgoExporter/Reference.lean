/-
  ArgoExporter.Reference

  A platform whose byte strings remember what they encode, and the configuration
  of a deployment on it.  It meets the assumptions about JSON and Parquet, so the
  results that rest on them are not vacuous, and it runs the model on concrete
  inputs.  Regular expressions match nothing on it, and no text is base64 or
  gzip.
-/

import ArgoExporter.Config
import ArgoExporter.ParquetRoundTrip
import ArgoExporter.Py.Stamp

namespace ArgoExporter.Reference

open ArgoExporter.Py
open ArgoExporter.ParquetIo

/-- Byte strings by what they encode. -/
inductive TaggedBytes where
  | text (s : String)
  | json (j : Json)
  | parquet (t : Table)

def reprOf : Json → String
  | .null => "None"
  | .bool b => if b then "True" else "False"
  | .int n => toString n
  | .str s => "'" ++ s ++ "'"
  | v => "<" ++ v.typeName ++ ">"

def castTo (c : Column) (type : ColType) : Except Exc Column :=
  if ∀ v ∈ c.cells, type.Holds v then .ok ⟨c.name, type, c.cells⟩
  else raise (.other "ArrowInvalid") "cast failed"

/-- A digest of 64 hexadecimal digits in which every character counts. -/
def digestOf (text : String) : String :=
  let n := text.toList.foldl (fun n c => n * 1000003 + c.toNat) 1
  String.ofList ((List.range 64).map fun i => Nat.digitChar (n / 16 ^ i % 16))

/-- The `CLUSTERS_JSON` of the reference deployment, and the value it encodes. -/
def clustersText : String :=
  "[\x7b\"name\": \"alpha\", \"base_url\": \"https://alpha\"\x7d, " ++
    "\x7b\"name\": \"beta\", \"namespace\": \"ci\"\x7d]"

def clustersJson : Json :=
  .arr [.obj [("name", .str "alpha"), ("base_url", .str "https://alpha")],
    .obj [("name", .str "beta"), ("namespace", .str "ci")]]

def platform : Platform TaggedBytes where
  repr := reprOf
  lower := fun s => String.ofList (s.toList.map Char.toLower)
  upper := fun s => String.ofList (s.toList.map Char.toUpper)
  reSub := fun _ _ text => text
  reSearch := fun _ _ => false
  sha256hex := digestOf
  decodeUtf8 := fun
    | .text s => .ok s
    | _ => raise .unicodeDecodeError "invalid start byte"
  b64decode := fun _ => raise .binasciiError "Only base64 data is allowed"
  gzipDecompress := fun _ => raise .badGzipFile "Not a gzipped file"
  jsonLoads := fun
    | .json j => .ok j
    | _ => raise .jsonDecodeError "Expecting value"
  jsonLoadsText := fun text =>
    if text = clustersText then .ok clustersJson else raise .jsonDecodeError "Expecting value"
  jsonDumps := fun j => .ok (.json j)
  responseJson := fun
    | .json j => .ok j
    | _ => raise .jsonDecodeError "Expecting value"
  fromPylist := fun rows schema =>
    if ∀ r ∈ rows, Record.Fits schema r then .ok (tableOf rows schema)
    else raise (.other "ArrowTypeError") "value outside its column type"
  castColumn := castTo
  writeTable := fun t => .ok (.parquet t)
  readTable := fun
    | .parquet t => .ok t
    | _ => raise (.other "ArrowInvalid") "not a Parquet file"
  readMetadata := fun
    | .parquet t => .ok (some (t.metadata.map fun e => (e.1, .text e.2)))
    | _ => raise (.other "ArrowInvalid") "not a Parquet file"

theorem jsonFaithful : JsonFaithful platform where
  dumps_ok := fun j _ => ⟨.json j, rfl⟩
  loads_dumps := fun j b _ h => by
    have hb : b = .json j := (Except.ok.inj h).symm
    rw [hb]
    rfl

theorem castTo_eq_ok {c c' : Column} {type : ColType} (h : castTo c type = .ok c') :
    ∀ v ∈ c'.cells, type.Holds v := by
  unfold castTo at h
  split at h
  · rename_i hall
    rw [Except.ok.injEq] at h
    rw [← h]
    exact hall
  · exact absurd h (by simp)

theorem parquetFaithful : ParquetFaithful platform where
  fromPylist_ok := fun rows schema _ hfit => if_pos hfit
  fromPylist_fits := fun rows schema table _ h => by
    by_contra hfit
    have : platform.fromPylist rows schema =
        raise (.other "ArrowTypeError") "value outside its column type" := if_neg hfit
    rw [this] at h
    exact absurd h (by simp)
  writeTable_ok := fun rows schema metadata _ _ => ⟨_, rfl⟩
  readTable_writeTable := fun table data h => by
    have hdata : data = .parquet table := (Except.ok.inj h).symm
    rw [hdata]
    exact ⟨table.metadata, rfl⟩
  readMetadata_writeTable := fun table data key value h hmeta => by
    have hdata : data = .parquet table := (Except.ok.inj h).symm
    rw [hdata]
    refine ⟨[(key, .text value)], .text value, ?_, List.lookup_cons_self, rfl⟩
    show Except.ok (some (table.metadata.map fun e => (e.1, TaggedBytes.text e.2))) = _
    rw [hmeta]
    rfl
  castColumn_self := fun column h => by
    show castTo column column.type = .ok column
    rw [castTo, if_pos h]
  castColumn_holds := fun _ _ _ h => castTo_eq_ok h

theorem utf8Strict : Utf8Strict platform := by
  intro b e h
  cases b with
  | text s => exact absurd h (by simp [platform])
  | json j => rw [← Except.error.inj h]
  | parquet t => rw [← Except.error.inj h]

/-! ## Workflow objects -/

/-- A Workflow object with this uid and status. -/
def workflow (uid : String) (status : Json) : Json :=
  .obj [("metadata", .obj [("uid", .str uid), ("name", .str "nightly"),
      ("namespace", .str "ci")]), ("spec", .obj []), ("status", status)]

/-- A run that succeeded. -/
def succeeded : Json := .obj [("phase", .str "Succeeded")]

/-- A platform on which every text is base64 and gzip of the JSON value `nodes`. -/
def inflating (nodes : Json) : Platform TaggedBytes :=
  { platform with
    b64decode := fun s => .ok (.text s)
    gzipDecompress := fun b => .ok b
    jsonLoads := fun _ => .ok nodes }

/-! ## Configuration -/

def alpha : Cluster := ⟨"alpha", some "https://alpha", none⟩
def beta : Cluster := ⟨"beta", none, some "ci"⟩

/-- The environment of the deployment; what it leaves out has a default. -/
def environ : Config.Environ := fun name =>
  [("CLUSTERS_JSON", clustersText), ("DEST_S3_ENDPOINT", "https://s3"),
   ("DEST_S3_ACCESS_KEY_ID", "id"), ("DEST_S3_SECRET_ACCESS_KEY", "secret"),
   ("DEST_S3_BUCKET", "bucket")].lookup name

def versionFile : String → Except Exc String := fun _ => .ok "1.0.0\n"

def config : Config where
  clusters := [alpha, beta]
  «namespace» := ""
  dest := ⟨"https://s3", "id", "secret", "bucket", "virtual", "us-east-1"⟩
  destPrefix := "argo/data"
  version := "1.0.0"
  pollIntervalSeconds := 300
  runRetentionDays := 7
  httpTimeoutSeconds := 10
  pageSize := 500
  healthPort := 8080
  logLevel := "INFO"

theorem config_loaded : Config.load platform environ versionFile = .ok config := by
  rfl

/-! ## Instants and rows -/

/-- The start of 2026, `n` seconds later. -/
def instant (n : Nat) (h : n < 1000000 := by decide) : Stamp :=
  ⟨63902822400 + n, by unfold stampMin; omega, by unfold stampMax; omega⟩

/-- Seven days before `instant n`. -/
def weekBefore (n : Nat) (h : n < 1000000 := by decide) : Stamp :=
  ⟨63902217600 + n, by unfold stampMin; omega, by unfold stampMax; omega⟩

/-- The row of the listed run, observed at `t`. -/
def row (t : String) : ParquetIo.SnapshotRow where
  shared := {
    uid := .str "u-1"
    cluster := .str "alpha"
    «namespace» := .str "ci"
    name := .str "nightly"
    template := .null
    templateScope := .null
    triggerKind := .null
    triggerName := .null
    phase := .str "Succeeded"
    message := .null
    progress := .null
    createdAt := .null
    startedAt := .null
    finishedAt := .null
    durationSeconds := .null
    resourcesDurationCpu := .null
    resourcesDurationMemory := .null
    failedStep := .null
    failedStepMessage := .null
    failureFingerprint := .null
    failureClass := .null }
  observedAt := .str t

theorem row_fits (t : String) : Record.Fits ParquetIo.workflowsSchema (row t).toRecord := by
  rw [ParquetIo.fits_snapshot_iff]
  have htext (s : String) : ColType.string.Holds (.str s) := Or.inr ⟨s, rfl⟩
  have hnull (type : ColType) : type.Holds .null := ParquetIo.ColType.holds_null type
  exact ⟨⟨htext _, htext _, htext _, htext _, hnull _, hnull _, hnull _, hnull _, htext _, hnull _,
    hnull _, hnull _, hnull _, hnull _, hnull _, hnull _, hnull _, hnull _, hnull _, hnull _,
    hnull _⟩, htext _⟩

theorem rows_fit (t : String) :
    ∀ r ∈ [row t], Record.Fits ParquetIo.workflowsSchema r.toRecord := by
  intro r hr
  rw [List.mem_singleton.mp hr]
  exact row_fits t

end ArgoExporter.Reference
