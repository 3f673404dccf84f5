/-
  ArgoExporter.ParquetIo

  `parquet_io.py`: the two schemas, the generation id in a file's footer, and
  the conversion between rows and Parquet bytes.  Rows are structures with one
  field per column; a cell is a JSON value, because a schema is only enforced
  when a table is built from the rows.
-/

import ArgoExporter.Py.Platform

namespace ArgoExporter.ParquetIo

open ArgoExporter.Py

/-! ## Schemas -/

/-- Columns shared by both outputs. -/
def sharedFields : Schema :=
  [("uid", .string), ("cluster", .string), ("namespace", .string), ("name", .string),
   ("template", .string), ("template_scope", .string), ("trigger_kind", .string),
   ("trigger_name", .string), ("phase", .string), ("message", .string), ("progress", .string),
   ("created_at", .string), ("started_at", .string), ("finished_at", .string),
   ("duration_seconds", .int64), ("resources_duration_cpu", .int64),
   ("resources_duration_memory", .int64), ("failed_step", .string),
   ("failed_step_message", .string), ("failure_fingerprint", .string),
   ("failure_class", .string)]

def workflowsSchema : Schema := sharedFields ++ [("observed_at", .string)]

def runsSchema : Schema :=
  sharedFields ++ [("first_seen_at", .string), ("last_seen_at", .string)]

/-! ## Rows -/

/-- The cells of the shared columns. -/
@[ext]
structure SharedColumns where
  uid : Json
  cluster : Json
  «namespace» : Json
  name : Json
  template : Json
  templateScope : Json
  triggerKind : Json
  triggerName : Json
  phase : Json
  message : Json
  progress : Json
  createdAt : Json
  startedAt : Json
  finishedAt : Json
  durationSeconds : Json
  resourcesDurationCpu : Json
  resourcesDurationMemory : Json
  failedStep : Json
  failedStepMessage : Json
  failureFingerprint : Json
  failureClass : Json

/-- A row of `workflows.parquet`. -/
@[ext]
structure SnapshotRow where
  shared : SharedColumns
  observedAt : Json

/-- A row of `runs.parquet`. -/
@[ext]
structure LedgerRow where
  shared : SharedColumns
  firstSeenAt : Json
  lastSeenAt : Json

def SharedColumns.toRecord (c : SharedColumns) : Record :=
  [("uid", c.uid), ("cluster", c.cluster), ("namespace", c.namespace), ("name", c.name),
   ("template", c.template), ("template_scope", c.templateScope),
   ("trigger_kind", c.triggerKind), ("trigger_name", c.triggerName), ("phase", c.phase),
   ("message", c.message), ("progress", c.progress), ("created_at", c.createdAt),
   ("started_at", c.startedAt), ("finished_at", c.finishedAt),
   ("duration_seconds", c.durationSeconds), ("resources_duration_cpu", c.resourcesDurationCpu),
   ("resources_duration_memory", c.resourcesDurationMemory), ("failed_step", c.failedStep),
   ("failed_step_message", c.failedStepMessage),
   ("failure_fingerprint", c.failureFingerprint), ("failure_class", c.failureClass)]

def SnapshotRow.toRecord (r : SnapshotRow) : Record :=
  r.shared.toRecord ++ [("observed_at", r.observedAt)]

def LedgerRow.toRecord (r : LedgerRow) : Record :=
  r.shared.toRecord ++ [("first_seen_at", r.firstSeenAt), ("last_seen_at", r.lastSeenAt)]

def SharedColumns.ofRecord (r : Record) : SharedColumns where
  uid := Record.get r "uid"
  cluster := Record.get r "cluster"
  «namespace» := Record.get r "namespace"
  name := Record.get r "name"
  template := Record.get r "template"
  templateScope := Record.get r "template_scope"
  triggerKind := Record.get r "trigger_kind"
  triggerName := Record.get r "trigger_name"
  phase := Record.get r "phase"
  message := Record.get r "message"
  progress := Record.get r "progress"
  createdAt := Record.get r "created_at"
  startedAt := Record.get r "started_at"
  finishedAt := Record.get r "finished_at"
  durationSeconds := Record.get r "duration_seconds"
  resourcesDurationCpu := Record.get r "resources_duration_cpu"
  resourcesDurationMemory := Record.get r "resources_duration_memory"
  failedStep := Record.get r "failed_step"
  failedStepMessage := Record.get r "failed_step_message"
  failureFingerprint := Record.get r "failure_fingerprint"
  failureClass := Record.get r "failure_class"

def SnapshotRow.ofRecord (r : Record) : SnapshotRow :=
  ⟨SharedColumns.ofRecord r, Record.get r "observed_at"⟩

def LedgerRow.ofRecord (r : Record) : LedgerRow :=
  ⟨SharedColumns.ofRecord r, Record.get r "first_seen_at", Record.get r "last_seen_at"⟩

/-- A stored row, once projected to its schema, is read back as it was. -/
theorem LedgerRow.ofRecord_project (r : LedgerRow) :
    LedgerRow.ofRecord (Record.project runsSchema r.toRecord) = r := rfl

theorem SnapshotRow.ofRecord_project (r : SnapshotRow) :
    SnapshotRow.ofRecord (Record.project workflowsSchema r.toRecord) = r := rfl

/-! ## Encoding and decoding -/

variable {Bytes : Type} (py : Platform Bytes)

/-- Key of the generation id in a file's metadata. -/
def generationIdKey : String := "generation_id"

def stampGeneration (table : Table) (generationId : String) : Table :=
  { table with metadata := [(generationIdKey, generationId)] }

def tableToParquetBytes (rows : List Record) (schema : Schema)
    (generationId : Option String) : Except Exc Bytes := do
  let table ← py.fromPylist rows schema
  match generationId with
  | some id => py.writeTable (stampGeneration table id)
  | none => py.writeTable table

/-- The generation id in a file's footer, absent from files older than generations. -/
def readGenerationId (data : Bytes) : Except Exc (Option String) := do
  let metadata ← py.readMetadata data
  match (metadata.getD []).lookup generationIdKey with
  | some value => return some (← py.decodeUtf8 value)
  | none => return none

/-- One column of the target schema: cast if the table has it, null otherwise. -/
def conformField (table : Table) (field : String × ColType) : Except Exc Column :=
  match table.columns.filter fun c => c.name = field.1 with
  | [] => .ok ⟨field.1, field.2, List.replicate table.numRows .null⟩
  | [c] => do
      let c' ← py.castColumn c field.2
      return ⟨field.1, field.2, c'.cells⟩
  | _ => raise .keyError s!"Field {field.1} exists 2 times in schema"

/-- `pa.Table.from_arrays` of columns with `numRows` cells each.  A table counts its rows in a column,
    so without columns it has none. -/
def fromArrays (numRows : Nat) (columns : List Column) : Table :=
  ⟨if columns.isEmpty then 0 else numRows, columns, []⟩

def conform (table : Table) (schema : Schema) : Except Exc Table := do
  let columns ← schema.mapM (conformField py table)
  return fromArrays table.numRows columns

/-- Decode stored bytes; an absent object is an empty table of the schema. -/
def parquetBytesToTable (data : Option Bytes) (schema : Schema) : Except Exc Table :=
  match data with
  | none => py.fromPylist [] schema
  | some data => do conform py (← py.readTable data) schema

end ArgoExporter.ParquetIo
