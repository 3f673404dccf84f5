/-
  ArgoExporter.Py.Platform

  The libraries the exporter calls and whose code is not in the repository:
  `re`, `hashlib`, `base64`, `gzip`, `json`, `pyarrow` and `requests`' body
  decoder.  They are fields of one structure, and what a result relies on
  about them is stated as a named hypothesis.  `Bytes` is the type of byte
  strings.
-/

import ArgoExporter.Py.Exc
import ArgoExporter.Py.Json

namespace ArgoExporter.Py

/-! ## Tables -/

/-- Column types of the two published schemas, and any other type a stored file may have. -/
inductive ColType where
  | string
  | int64
  | other (name : String)
  deriving DecidableEq, Repr

/-- Field names with their types, in column order. -/
abbrev Schema := List (String × ColType)

/-- A row as a dict. -/
abbrev Record := List (String × Json)

/-- `row.get(name)`. -/
def Record.get (r : Record) (name : String) : Json := (Json.obj r).get name

/-- One column of a table. -/
structure Column where
  name : String
  type : ColType
  cells : List Json

/-- An Arrow table: its columns, and the key-value metadata of its schema. -/
structure Table where
  numRows : Nat
  columns : List Column
  metadata : List (String × String)

/-- `table.to_pylist()`. -/
def Table.toPylist (t : Table) : List Record :=
  (List.range t.numRows).map fun i => t.columns.map fun c => (c.name, c.cells.getD i .null)

/-- The values a column type can hold; every column is nullable. -/
def ColType.Holds : ColType → Json → Prop
  | string, v => v = .null ∨ ∃ s, v = .str s
  | int64, v => v = .null ∨ ∃ n : Int, v = .int n ∧ -2 ^ 63 ≤ n ∧ n < 2 ^ 63
  | other _, _ => True

instance (type : ColType) (v : Json) : Decidable (type.Holds v) :=
  match type, v with
  | .string, .null | .int64, .null => isTrue (Or.inl rfl)
  | .string, .str s => isTrue (Or.inr ⟨s, rfl⟩)
  | .int64, .int n =>
      decidable_of_iff (-2 ^ 63 ≤ n ∧ n < 2 ^ 63) ⟨fun h => Or.inr ⟨n, rfl, h⟩, fun h => by
        rcases h with h | ⟨m, hm, h⟩
        · exact absurd h (by simp)
        · rwa [Json.int.inj hm]⟩
  | .other _, _ => isTrue trivial
  | .string, .bool _ | .string, .int _ | .string, .float _ | .string, .arr _ | .string, .obj _ =>
      isFalse (by simp [ColType.Holds])
  | .int64, .bool _ | .int64, .str _ | .int64, .float _ | .int64, .arr _ | .int64, .obj _ =>
      isFalse (by simp [ColType.Holds])

/-- Every declared column of the record holds a value of its type. -/
def Record.Fits (schema : Schema) (r : Record) : Prop :=
  ∀ f ∈ schema, f.2.Holds (Record.get r f.1)

instance (schema : Schema) (r : Record) : Decidable (Record.Fits schema r) :=
  inferInstanceAs (Decidable (∀ f ∈ schema, f.2.Holds (Record.get r f.1)))

/-- The declared columns of a record, in schema order. -/
def Record.project (schema : Schema) (r : Record) : Record :=
  schema.map fun f => (f.1, Record.get r f.1)

/-! ## The platform -/

/-- Third-party and C-implemented functions, by the names the source calls them. -/
structure Platform (Bytes : Type) where
  /-- `repr(value)`. -/
  repr : Json → String
  /-- `text.lower()`. -/
  lower : String → String
  /-- `text.upper()`. -/
  upper : String → String
  /-- `re.compile(pattern).sub(replacement, text)`. -/
  reSub : (pattern replacement text : String) → String
  /-- `re.compile(pattern, re.IGNORECASE).search(text) is not None`. -/
  reSearch : (pattern text : String) → Bool
  /-- `hashlib.sha256(text.encode()).hexdigest()`. -/
  sha256hex : String → String
  /-- `bytes.decode("utf-8")`. -/
  decodeUtf8 : Bytes → Except Exc String
  /-- `base64.b64decode(value, validate=True)`. -/
  b64decode : String → Except Exc Bytes
  /-- `gzip.decompress(data)`. -/
  gzipDecompress : Bytes → Except Exc Bytes
  /-- `json.loads(data)` on bytes. -/
  jsonLoads : Bytes → Except Exc Json
  /-- `json.loads(text)` on a string. -/
  jsonLoadsText : String → Except Exc Json
  /-- `json.dumps(value).encode()`. -/
  jsonDumps : Json → Except Exc Bytes
  /-- `requests.Response.json()` for a response with this body. -/
  responseJson : Bytes → Except Exc Json
  /-- `pa.Table.from_pylist(rows, schema=schema)`. -/
  fromPylist : List Record → Schema → Except Exc Table
  /-- `column.cast(type)`. -/
  castColumn : Column → ColType → Except Exc Column
  /-- `pq.write_table` into a buffer. -/
  writeTable : Table → Except Exc Bytes
  /-- `pq.read_table`. -/
  readTable : Bytes → Except Exc Table
  /-- `pq.read_metadata(...).metadata`. -/
  readMetadata : Bytes → Except Exc (Option (List (String × Bytes)))

/-! ## What results rely on -/

section Assumptions

variable {Bytes : Type} (py : Platform Bytes)

/-- JSON encoding succeeds on values with distinct keys, and decoding undoes it. -/
structure JsonFaithful : Prop where
  dumps_ok : ∀ j : Json, j.DistinctKeys → ∃ b, py.jsonDumps j = .ok b
  loads_dumps : ∀ (j : Json) (b : Bytes), j.DistinctKeys → py.jsonDumps j = .ok b →
    py.jsonLoads b = .ok j

/-- Decoding fails with `UnicodeDecodeError` only. -/
def Utf8Strict : Prop :=
  ∀ b e, py.decodeUtf8 b = .error e → e.cls = .unicodeDecodeError

end Assumptions

end ArgoExporter.Py
