/-
  ArgoExporter.ParquetRoundTrip

  What the exporter relies on about Arrow and Parquet, for tables of the two
  published schemas, and what follows for `parquet_io.py`: rows that fit their
  schema encode, the footer of the encoding names the generation it was
  stamped with, and decoding gives the rows back.
-/

import ArgoExporter.ParquetIo

namespace ArgoExporter.ParquetIo

open ArgoExporter.Py

/-- The table of a list of rows: one column per field, a missing value is null. -/
def tableOf (rows : List Record) (schema : Schema) : Table :=
  ⟨rows.length, schema.map fun f => ⟨f.1, f.2, rows.map fun r => Record.get r f.1⟩, []⟩

/-- One of the two published schemas. -/
def Published (schema : Schema) : Prop := schema = workflowsSchema ∨ schema = runsSchema

variable {Bytes : Type} (py : Platform Bytes)

/-- Arrow builds the table of the rows, and fails exactly on values outside their column type;
    Parquet keeps a table's columns and its metadata; a cast gives cells of the requested type. -/
structure ParquetFaithful : Prop where
  fromPylist_ok : ∀ rows schema, Published schema → (∀ r ∈ rows, Record.Fits schema r) →
    py.fromPylist rows schema = .ok (tableOf rows schema)
  fromPylist_fits : ∀ rows schema table, Published schema →
    py.fromPylist rows schema = .ok table → ∀ r ∈ rows, Record.Fits schema r
  writeTable_ok : ∀ rows schema metadata, Published schema → (∀ r ∈ rows, Record.Fits schema r) →
    ∃ data, py.writeTable { tableOf rows schema with metadata := metadata } = .ok data
  readTable_writeTable : ∀ table data, py.writeTable table = .ok data →
    ∃ metadata, py.readTable data = .ok { table with metadata := metadata }
  readMetadata_writeTable : ∀ (table : Table) data key value, py.writeTable table = .ok data →
    table.metadata = [(key, value)] → ∃ metadata raw, py.readMetadata data = .ok (some metadata) ∧
      metadata.lookup key = some raw ∧ py.decodeUtf8 raw = .ok value
  castColumn_self : ∀ column, (∀ v ∈ column.cells, column.type.Holds v) →
    py.castColumn column column.type = .ok column
  castColumn_holds : ∀ column type column', py.castColumn column type = .ok column' →
    ∀ v ∈ column'.cells, type.Holds v

/-! ## Rows of a table -/

theorem workflowsSchema_nodup : (workflowsSchema.map Prod.fst).Nodup := by decide

theorem runsSchema_nodup : (runsSchema.map Prod.fst).Nodup := by decide

theorem Published.nodup {schema : Schema} (h : Published schema) :
    (schema.map Prod.fst).Nodup := by
  rcases h with rfl | rfl
  · exact workflowsSchema_nodup
  · exact runsSchema_nodup

theorem toPylist_tableOf (rows : List Record) (schema : Schema) :
    (tableOf rows schema).toPylist = rows.map (Record.project schema) := by
  apply List.ext_getElem
  · simp [Table.toPylist, tableOf]
  · intro i h1 h2
    have hi : i < rows.length := by simpa using h2
    simp only [Table.toPylist, tableOf, List.getElem_map, List.getElem_range, List.map_map,
      Record.project]
    apply List.map_congr_left
    intro f _
    simp [hi]

theorem ColType.holds_null (type : ColType) : type.Holds .null := by
  cases type with
  | string => exact Or.inl rfl
  | int64 => exact Or.inl rfl
  | other name => exact trivial

/-- Rows of columns that hold their types fit the schema of these columns. -/
theorem fits_toPylist {table : Table} {schema : Schema} (hnd : (schema.map Prod.fst).Nodup)
    (hcols : List.Forall₂ (fun (f : String × ColType) (c : Column) =>
      c.name = f.1 ∧ ∀ v ∈ c.cells, f.2.Holds v) schema table.columns) :
    ∀ r ∈ table.toPylist, Record.Fits schema r := by
  intro r hr
  obtain ⟨i, _, rfl⟩ := List.mem_map.mp hr
  generalize table.columns = columns at hcols
  induction hcols with
  | nil =>
      intro f hf
      exact absurd hf List.not_mem_nil
  | @cons f c schema columns hc _ ih =>
      rw [List.map_cons, List.nodup_cons] at hnd
      intro g hg
      unfold Record.get Json.get
      rw [List.map_cons, Json.get?_obj_cons, hc.1]
      rcases List.mem_cons.mp hg with rfl | hg
      · rw [if_pos rfl, Option.getD_some, List.getD_eq_getElem?_getD]
        cases hi : c.cells[i]? with
        | none => exact ColType.holds_null g.2
        | some v => exact hc.2 v (List.mem_of_getElem? hi)
      · have hne : f.1 ≠ g.1 := fun h => hnd.1 (h ▸ List.mem_map_of_mem (f := Prod.fst) hg)
        rw [if_neg hne]
        exact ih hnd.2 g hg

/-! ## Typed rows -/

/-- Every shared column holds a value of its declared type. -/
structure SharedColumns.Typed (c : SharedColumns) : Prop where
  uid : ColType.string.Holds c.uid
  cluster : ColType.string.Holds c.cluster
  «namespace» : ColType.string.Holds c.namespace
  name : ColType.string.Holds c.name
  template : ColType.string.Holds c.template
  templateScope : ColType.string.Holds c.templateScope
  triggerKind : ColType.string.Holds c.triggerKind
  triggerName : ColType.string.Holds c.triggerName
  phase : ColType.string.Holds c.phase
  message : ColType.string.Holds c.message
  progress : ColType.string.Holds c.progress
  createdAt : ColType.string.Holds c.createdAt
  startedAt : ColType.string.Holds c.startedAt
  finishedAt : ColType.string.Holds c.finishedAt
  durationSeconds : ColType.int64.Holds c.durationSeconds
  resourcesDurationCpu : ColType.int64.Holds c.resourcesDurationCpu
  resourcesDurationMemory : ColType.int64.Holds c.resourcesDurationMemory
  failedStep : ColType.string.Holds c.failedStep
  failedStepMessage : ColType.string.Holds c.failedStepMessage
  failureFingerprint : ColType.string.Holds c.failureFingerprint
  failureClass : ColType.string.Holds c.failureClass

theorem fits_append_iff {s t : Schema} {r : Record} :
    Record.Fits (s ++ t) r ↔ Record.Fits s r ∧ Record.Fits t r :=
  List.forall_mem_append

theorem fits_cons_iff {f : String × ColType} {s : Schema} {r : Record} :
    Record.Fits (f :: s) r ↔ f.2.Holds (Record.get r f.1) ∧ Record.Fits s r :=
  List.forall_mem_cons

theorem fits_nil (r : Record) : Record.Fits [] r := List.forall_mem_nil _

theorem typed_ofRecord_iff (r : Record) :
    (SharedColumns.ofRecord r).Typed ↔ Record.Fits sharedFields r := by
  unfold sharedFields
  simp only [fits_cons_iff]
  constructor
  · rintro ⟨h1, h2, h3, h4, h5, h6, h7, h8, h9, h10, h11, h12, h13, h14, h15, h16, h17, h18, h19,
      h20, h21⟩
    exact ⟨h1, h2, h3, h4, h5, h6, h7, h8, h9, h10, h11, h12, h13, h14, h15, h16, h17, h18, h19,
      h20, h21, fits_nil _⟩
  · rintro ⟨h1, h2, h3, h4, h5, h6, h7, h8, h9, h10, h11, h12, h13, h14, h15, h16, h17, h18, h19,
      h20, h21, _⟩
    exact ⟨h1, h2, h3, h4, h5, h6, h7, h8, h9, h10, h11, h12, h13, h14, h15, h16, h17, h18, h19,
      h20, h21⟩

/-- The columns of a record that starts with the shared ones. -/
theorem fits_shared_iff (c : SharedColumns) (rest : Record) :
    Record.Fits sharedFields (c.toRecord ++ rest) ↔ c.Typed :=
  (typed_ofRecord_iff (c.toRecord ++ rest)).symm

theorem fits_snapshot_iff (r : SnapshotRow) :
    Record.Fits workflowsSchema r.toRecord ↔
      r.shared.Typed ∧ ColType.string.Holds r.observedAt := by
  rw [workflowsSchema, fits_append_iff, SnapshotRow.toRecord, fits_shared_iff, fits_cons_iff]
  exact and_congr_right fun _ => ⟨fun h => h.1, fun h => ⟨h, fits_nil _⟩⟩

theorem fits_ledger_iff (r : LedgerRow) :
    Record.Fits runsSchema r.toRecord ↔
      r.shared.Typed ∧ ColType.string.Holds r.firstSeenAt ∧ ColType.string.Holds r.lastSeenAt := by
  rw [runsSchema, fits_append_iff, LedgerRow.toRecord, fits_shared_iff, fits_cons_iff,
    fits_cons_iff]
  exact and_congr_right fun _ => and_congr_right fun _ => ⟨fun h => h.1, fun h => ⟨h, fits_nil _⟩⟩

/-- A decoded row fits as the record it was read from. -/
theorem fits_ofRecord_iff (r : Record) :
    Record.Fits runsSchema (LedgerRow.ofRecord r).toRecord ↔ Record.Fits runsSchema r := by
  rw [fits_ledger_iff, LedgerRow.ofRecord, typed_ofRecord_iff, runsSchema, fits_append_iff,
    fits_cons_iff, fits_cons_iff]
  exact and_congr_right fun _ => and_congr_right fun _ => ⟨fun h => ⟨h, fits_nil _⟩, fun h => h.1⟩

/-! ## Conforming -/

variable {py}

theorem conformField_holds (hpq : ParquetFaithful py) {table : Table} {f : String × ColType}
    {c : Column} (h : conformField py table f = .ok c) :
    c.name = f.1 ∧ ∀ v ∈ c.cells, f.2.Holds v := by
  unfold conformField at h
  split at h
  · rw [Except.ok.injEq] at h
    subst h
    refine ⟨rfl, fun v hv => ?_⟩
    rw [(List.mem_replicate.mp hv).2]
    exact ColType.holds_null f.2
  · obtain ⟨c', hcast, hret⟩ := bind_eq_ok.mp h
    rw [pure_eq_ok, Except.ok.injEq] at hret
    subst hret
    exact ⟨rfl, fun v hv => hpq.castColumn_holds _ _ c' hcast v hv⟩
  · exact absurd h (by simp)

theorem forall₂_of_mapM_ok {α β : Type} {f : α → Except Exc β} {l : List α} {bs : List β}
    (h : l.mapM f = .ok bs) : List.Forall₂ (fun a b => f a = .ok b) l bs := by
  induction l generalizing bs with
  | nil =>
      rw [List.mapM_nil, pure_eq_ok, Except.ok.injEq] at h
      subst h
      exact List.Forall₂.nil
  | cons a l ih =>
      rw [List.mapM_cons] at h
      obtain ⟨b, hb, h⟩ := bind_eq_ok.mp h
      obtain ⟨bs', hbs, h⟩ := bind_eq_ok.mp h
      rw [pure_eq_ok, Except.ok.injEq] at h
      subst h
      exact List.Forall₂.cons hb (ih hbs)

theorem mapM_ok_of_forall₂ {α β : Type} {f : α → Except Exc β} {l : List α} {bs : List β}
    (h : List.Forall₂ (fun a b => f a = .ok b) l bs) : l.mapM f = .ok bs := by
  induction h with
  | nil => rfl
  | cons hb _ ih =>
      rw [List.mapM_cons, hb, ok_bind, ih]
      rfl

/-- Whatever a stored file holds, the rows decoded from it fit the schema they are read with. -/
theorem fits_of_decode (hpq : ParquetFaithful py) {schema : Schema} (hs : Published schema)
    {data : Option Bytes} {table : Table} (h : parquetBytesToTable py data schema = .ok table) :
    ∀ r ∈ table.toPylist, Record.Fits schema r := by
  cases data with
  | none =>
      rw [parquetBytesToTable, hpq.fromPylist_ok _ _ hs (by simp), Except.ok.injEq] at h
      subst h
      intro r hr
      exact absurd hr (by simp [Table.toPylist, tableOf])
  | some data =>
      obtain ⟨stored, _, h⟩ := bind_eq_ok.mp h
      obtain ⟨columns, hcols, h⟩ := bind_eq_ok.mp h
      rw [pure_eq_ok, Except.ok.injEq] at h
      subst h
      exact fits_toPylist hs.nodup
        ((forall₂_of_mapM_ok hcols).imp fun _ _ h => conformField_holds hpq h)

theorem filter_name_tableOf {rows : List Record} {schema : Schema}
    (hnd : (schema.map Prod.fst).Nodup) {f : String × ColType} (hf : f ∈ schema) :
    (schema.map fun g => (⟨g.1, g.2, rows.map fun r => Record.get r g.1⟩ : Column)).filter
      (fun c => c.name = f.1) = [⟨f.1, f.2, rows.map fun r => Record.get r f.1⟩] := by
  induction schema with
  | nil => exact absurd hf List.not_mem_nil
  | cons g schema ih =>
      rw [List.map_cons, List.nodup_cons] at hnd
      rw [List.map_cons]
      rcases List.mem_cons.mp hf with rfl | hf
      · rw [List.filter_cons_of_pos (by simp), List.filter_eq_nil_iff.mpr]
        intro c hc
        obtain ⟨g, hg, rfl⟩ := List.mem_map.mp hc
        have hne : g.1 ≠ f.1 := fun h => hnd.1 (h ▸ List.mem_map_of_mem (f := Prod.fst) hg)
        simpa using hne
      · have hne : g.1 ≠ f.1 := fun h => hnd.1 (h ▸ List.mem_map_of_mem (f := Prod.fst) hf)
        rw [List.filter_cons_of_neg (by simpa using hne)]
        exact ih hnd.2 hf

/-- A table built from rows of its schema conforms to the schema as it is. -/
theorem conform_tableOf (hpq : ParquetFaithful py) {rows : List Record} {schema : Schema}
    (hs : Published schema) (hfit : ∀ r ∈ rows, Record.Fits schema r)
    (metadata : List (String × String)) :
    conform py { tableOf rows schema with metadata := metadata } schema =
      .ok (tableOf rows schema) := by
  have hcols : schema.mapM (conformField py { tableOf rows schema with metadata := metadata }) =
      .ok (tableOf rows schema).columns := by
    apply mapM_ok_of_forall₂
    rw [tableOf, List.forall₂_map_right_iff, List.forall₂_same]
    intro f hf
    rw [conformField, filter_name_tableOf hs.nodup hf]
    have hcast := hpq.castColumn_self ⟨f.1, f.2, rows.map fun r => Record.get r f.1⟩ (by
      intro v hv
      obtain ⟨r, hr, rfl⟩ := List.mem_map.mp hv
      exact hfit r hr f hf)
    simp only [hcast, ok_bind, pure_eq_ok]
  rw [conform, hcols]
  rcases hs with rfl | rfl <;> rfl

/-! ## Encoding and decoding -/

/-- Rows encode exactly when every one of them fits the schema. -/
theorem encode_ok_iff (hpq : ParquetFaithful py) {rows : List Record} {schema : Schema}
    (hs : Published schema) (generationId : String) :
    (∃ data, tableToParquetBytes py rows schema (some generationId) = .ok data) ↔
      ∀ r ∈ rows, Record.Fits schema r := by
  constructor
  · rintro ⟨data, h⟩
    obtain ⟨table, htable, _⟩ := bind_eq_ok.mp h
    exact hpq.fromPylist_fits _ _ _ hs htable
  · intro hfit
    obtain ⟨data, hdata⟩ :=
      hpq.writeTable_ok rows schema [(generationIdKey, generationId)] hs hfit
    refine ⟨data, ?_⟩
    rw [tableToParquetBytes, hpq.fromPylist_ok _ _ hs hfit]
    exact hdata

section Encoded

variable {rows : List Record} {schema : Schema} {generationId : String} {data : Bytes}

theorem encode_eq_ok (hpq : ParquetFaithful py) (hs : Published schema)
    (h : tableToParquetBytes py rows schema (some generationId) = .ok data) :
    (∀ r ∈ rows, Record.Fits schema r) ∧
      py.writeTable (stampGeneration (tableOf rows schema) generationId) = .ok data := by
  have hfit := (encode_ok_iff hpq hs generationId).mp ⟨data, h⟩
  rw [tableToParquetBytes, hpq.fromPylist_ok _ _ hs hfit] at h
  exact ⟨hfit, h⟩

/-- The footer of an encoding names its generation. -/
theorem readGenerationId_encode (hpq : ParquetFaithful py) (hs : Published schema)
    (h : tableToParquetBytes py rows schema (some generationId) = .ok data) :
    readGenerationId py data = .ok (some generationId) := by
  obtain ⟨_, hwrite⟩ := encode_eq_ok hpq hs h
  obtain ⟨metadata, raw, hread, hlookup, hraw⟩ :=
    hpq.readMetadata_writeTable _ data generationIdKey generationId hwrite rfl
  simp only [readGenerationId, hread, ok_bind, Option.getD_some, hlookup, hraw, pure_eq_ok]

/-- Decoding an encoding gives the table of its rows. -/
theorem decode_encode (hpq : ParquetFaithful py) (hs : Published schema)
    (h : tableToParquetBytes py rows schema (some generationId) = .ok data) :
    parquetBytesToTable py (some data) schema = .ok (tableOf rows schema) := by
  obtain ⟨hfit, hwrite⟩ := encode_eq_ok hpq hs h
  obtain ⟨metadata, hread⟩ := hpq.readTable_writeTable _ data hwrite
  rw [parquetBytesToTable, hread, ok_bind]
  exact conform_tableOf hpq hs hfit metadata

end Encoded

theorem decode_none (hpq : ParquetFaithful py) {schema : Schema} (hs : Published schema) :
    parquetBytesToTable py none schema = .ok (tableOf [] schema) :=
  hpq.fromPylist_ok [] schema hs (by simp)

/-- The ledger rows of a decoded table. -/
def ledgerRows (table : Table) : List LedgerRow := table.toPylist.map LedgerRow.ofRecord

theorem ledgerRows_tableOf (rows : List LedgerRow) :
    ledgerRows (tableOf (rows.map LedgerRow.toRecord) runsSchema) = rows := by
  rw [ledgerRows, toPylist_tableOf, List.map_map, List.map_map]
  exact List.map_id'' LedgerRow.ofRecord_project rows

/-- The snapshot rows of a decoded table. -/
def snapshotRows (table : Table) : List SnapshotRow := table.toPylist.map SnapshotRow.ofRecord

theorem snapshotRows_tableOf (rows : List SnapshotRow) :
    snapshotRows (tableOf (rows.map SnapshotRow.toRecord) workflowsSchema) = rows := by
  rw [snapshotRows, toPylist_tableOf, List.map_map, List.map_map]
  exact List.map_id'' SnapshotRow.ofRecord_project rows

end ArgoExporter.ParquetIo
