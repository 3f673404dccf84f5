/-
  ArgoExporter.ParquetReleases

  `conform` across releases.  A release reads what an older one stored with its
  own schema: columns it lacks come back as nulls and columns it has no use for
  are gone.  Through any sequence of releases a column keeps its cells exactly
  when every release declares it.
-/

import ArgoExporter.Ledger.Merged
import ArgoExporter.Reference

namespace ArgoExporter.ParquetIo

open ArgoExporter.Py

/-! ## Specification -/

/-- The cells under a name, nulls if the table has no such column. -/
def cellsOf (table : Table) (name : String) : List Json :=
  match table.columns.filter fun c => c.name = name with
  | [c] => c.cells
  | _ => List.replicate table.numRows .null

/-- The names of a schema. -/
def names (schema : Schema) : List String := schema.map Prod.fst

/-- A stored table with distinct columns, in which those that the schema declares have its types. -/
structure ReadableAs (schema : Schema) (table : Table) : Prop where
  nodup : (table.columns.map Column.name).Nodup
  typed : ∀ c ∈ table.columns, ∀ field ∈ schema, c.name = field.1 →
    c.type = field.2 ∧ ∀ v ∈ c.cells, field.2.Holds v

/-- Two schemas give the columns they share the same types. -/
def AgreeOn (schema schema' : Schema) : Prop :=
  ∀ field ∈ schema, ∀ field' ∈ schema', field.1 = field'.1 → field.2 = field'.2

/-- The table in the shape of a schema. -/
def conformed (table : Table) (schema : Schema) : Table :=
  fromArrays table.numRows (schema.map fun f => ⟨f.1, f.2, cellsOf table f.1⟩)

variable {Bytes : Type} {py : Platform Bytes}

/-! ## Columns -/

/-- A table has one column of a name, or none. -/
theorem filter_name_cases {table : Table} (hnd : (table.columns.map Column.name).Nodup)
    (name : String) :
    table.columns.filter (fun c => c.name = name) = [] ∧ name ∉ table.columns.map Column.name ∨
      ∃ c ∈ table.columns, c.name = name ∧ table.columns.filter (fun d => d.name = name) = [c] := by
  by_cases hmem : name ∈ table.columns.map Column.name
  · obtain ⟨c, hc, rfl⟩ := List.mem_map.mp hmem
    exact Or.inr ⟨c, hc, rfl, Ledger.filter_key_eq_singleton hnd hc⟩
  · refine Or.inl ⟨List.filter_eq_nil_iff.mpr fun c hc => ?_, hmem⟩
    rw [decide_eq_true_eq]
    rintro rfl
    exact hmem (List.mem_map_of_mem hc)

theorem cellsOf_of_not_mem {table : Table} {name : String}
    (h : name ∉ table.columns.map Column.name) :
    cellsOf table name = List.replicate table.numRows .null := by
  have hnil : table.columns.filter (fun c => c.name = name) = [] := by
    refine List.filter_eq_nil_iff.mpr fun c hc => ?_
    rw [decide_eq_true_eq]
    rintro rfl
    exact h (List.mem_map_of_mem hc)
  rw [cellsOf, hnil]

theorem cellsOf_of_mem {table : Table} (hnd : (table.columns.map Column.name).Nodup) {c : Column}
    (hc : c ∈ table.columns) : cellsOf table c.name = c.cells := by
  rw [cellsOf, Ledger.filter_key_eq_singleton hnd hc]

/-! ## One release -/

/-- A readable table conforms, and the result has the cells of the table. -/
theorem conform_readable (hpq : ParquetFaithful py) {schema : Schema} {table : Table}
    (h : ReadableAs schema table) : conform py table schema = .ok (conformed table schema) := by
  have hcolumns : schema.mapM (conformField py table) = .ok (conformed table schema).columns := by
    apply mapM_ok_of_forall₂
    rw [conformed, fromArrays, List.forall₂_map_right_iff, List.forall₂_same]
    intro field hfield
    rcases filter_name_cases h.nodup field.1 with ⟨hnil, _⟩ | ⟨c, hc, hname, hone⟩
    · rw [conformField, cellsOf, hnil]
    · obtain ⟨htype, hholds⟩ := h.typed c hc field hfield hname
      rw [← htype] at hholds
      have hcast := hpq.castColumn_self c hholds
      rw [conformField, cellsOf, hone]
      dsimp only
      rw [← htype, hcast]
      rfl
  rw [conform, hcolumns]
  rfl

theorem names_conformed (table : Table) (schema : Schema) :
    (conformed table schema).columns.map Column.name = names schema := by
  rw [conformed, fromArrays, List.map_map]
  rfl

/-- The rows are kept by a schema with columns. -/
theorem numRows_conformed (table : Table) (schema : Schema) :
    (conformed table schema).numRows = if schema = [] then 0 else table.numRows := by
  cases schema <;> rfl

/-- A column of the schema keeps its cells, any other name has none any more. -/
theorem cellsOf_conformed {schema : Schema} (hnd : (names schema).Nodup) (table : Table)
    (name : String) : cellsOf (conformed table schema) name =
      if name ∈ names schema then cellsOf table name
      else List.replicate (conformed table schema).numRows .null := by
  have hnd' : ((conformed table schema).columns.map Column.name).Nodup := by
    rw [names_conformed]
    exact hnd
  split_ifs with hmem
  · obtain ⟨field, hfield, rfl⟩ := List.mem_map.mp hmem
    exact cellsOf_of_mem hnd' (List.mem_map.mpr ⟨field, hfield, rfl⟩)
  · rw [← names_conformed table] at hmem
    exact cellsOf_of_not_mem hmem

/-- What one release stored is readable for every release that agrees with it on types. -/
theorem readableAs_conformed {schema schema' : Schema} (hnd : (names schema).Nodup)
    (hagree : AgreeOn schema schema') {table : Table} (h : ReadableAs schema table) :
    ReadableAs schema' (conformed table schema) where
  nodup := by
    rw [names_conformed]
    exact hnd
  typed := by
    intro c hc field' hfield' hname
    obtain ⟨field, hfield, rfl⟩ := List.mem_map.mp hc
    have htype : field.2 = field'.2 := hagree field hfield field' hfield' hname
    refine ⟨htype, fun v hv => ?_⟩
    rw [← htype]
    rcases filter_name_cases h.nodup field.1 with ⟨_, hnot⟩ | ⟨d, hd, hdname, _⟩
    · have hnulls : v ∈ List.replicate table.numRows Json.null := by
        rw [← cellsOf_of_not_mem hnot]
        exact hv
      rw [(List.mem_replicate.mp hnulls).2]
      exact ColType.holds_null _
    · have hcells : cellsOf table field.1 = d.cells := by
        rw [← hdname]
        exact cellsOf_of_mem h.nodup hd
      exact (h.typed d hd field hfield hdname).2 v (hcells ▸ hv)

/-! ## A sequence of releases -/

/-- Through a sequence of releases that agree on types, upgrades and rollbacks alike, nothing fails,
    the columns are those of the last release in its order, the rows stay unless some release
    declares no column at all, and a column keeps its cells exactly when every release on the way
    declares it. -/
theorem conform_releases (hpq : ParquetFaithful py) {schemas : List Schema} {last : Schema}
    (hnd : ∀ schema ∈ schemas ++ [last], (names schema).Nodup)
    (hagree : ∀ schema ∈ schemas ++ [last], ∀ schema' ∈ schemas ++ [last], AgreeOn schema schema')
    {table : Table} (hread : ∀ schema ∈ schemas ++ [last], ReadableAs schema table) :
    ∃ result, (schemas ++ [last]).foldlM (conform py) table = .ok result ∧
      result.numRows = (if [] ∈ schemas ++ [last] then 0 else table.numRows) ∧
      result.columns.map (fun c => (c.name, c.type)) = last ∧
      ∀ name ∈ names last, cellsOf result name =
        if ∀ schema ∈ schemas, name ∈ names schema then cellsOf table name
        else List.replicate result.numRows .null := by
  -- the table is replaced by what the first release makes of it
  induction schemas generalizing table with
  | nil =>
      have hlast := hread last List.mem_cons_self
      refine ⟨conformed table last, ?_, ?_, ?_, fun name hname => ?_⟩
      · rw [List.nil_append, List.foldlM_cons, conform_readable hpq hlast]
        rfl
      · simp only [numRows_conformed, List.nil_append, List.mem_singleton, eq_comm]
      · rw [conformed, fromArrays, List.map_map]
        exact List.map_id _
      · rw [cellsOf_conformed (hnd last List.mem_cons_self), if_pos hname, if_pos (by simp)]
  | cons schema schemas ih =>
      rw [List.cons_append] at hnd hagree hread ⊢
      obtain ⟨hndHead, hndRest⟩ := List.forall_mem_cons.mp hnd
      have hhead := hread schema List.mem_cons_self
      obtain ⟨result, hresult, hrows, hcolumns, hcells⟩ := ih hndRest
        (fun s hs s' hs' => hagree s (List.mem_cons_of_mem _ hs) s' (List.mem_cons_of_mem _ hs'))
        (fun s hs => readableAs_conformed hndHead
          (hagree schema List.mem_cons_self s (List.mem_cons_of_mem _ hs)) hhead)
      refine ⟨result, ?_, ?_, hcolumns, fun name hname => ?_⟩
      · rw [List.foldlM_cons, conform_readable hpq hhead, ok_bind, hresult]
      · rw [hrows, numRows_conformed]
        by_cases hempty : schema = []
        · simp [hempty]
        · simp [hempty, Ne.symm hempty]
      · rw [hcells name hname, cellsOf_conformed hndHead]
        by_cases hdeclared : name ∈ names schema
        · simp only [List.forall_mem_cons, hdeclared, true_and, if_true]
        · simp only [List.forall_mem_cons, hdeclared, false_and, if_false]
          split_ifs with hrest
          -- the rows are still there if the releases after it declare the column
          · have hcolumn : ∀ s ∈ schemas ++ [last], name ∈ names s :=
              List.forall_mem_append.mpr ⟨hrest, List.forall_mem_singleton.mpr hname⟩
            rw [hrows, if_neg fun hempty => absurd (hcolumn [] hempty) List.not_mem_nil]
          · rfl

/-! ## An upgrade over a release without phases -/

/-- A file with a column that no later release declares. -/
def olderFile : Table :=
  ⟨1, [⟨"owner", .string, [.str "ci"]⟩, ⟨"phase", .string, [.str "Failed"]⟩,
    ⟨"uid", .string, [.str "u-1"]⟩], []⟩

def withoutPhase : Schema := [("uid", .string)]

def withPhase : Schema := [("uid", .string), ("phase", .string)]

theorem readableAs_olderFile (schema : Schema) (h : ∀ field ∈ schema, field.2 = .string) :
    ReadableAs schema olderFile where
  nodup := by decide
  typed := by
    have hstrings : ∀ c ∈ olderFile.columns, c.type = .string ∧
        ∀ v ∈ c.cells, ColType.string.Holds v := by decide
    intro c hc field hfield _
    rw [h field hfield]
    exact hstrings c hc

/-- An upgrade after a rollback has the uid and has lost the phase. -/
theorem conform_releases_rollback :
    ∃ result, ([withPhase, withoutPhase] ++ [withPhase]).foldlM (conform Reference.platform)
        olderFile = .ok result ∧
      result.numRows = 1 ∧ cellsOf result "uid" = [.str "u-1"] ∧
      cellsOf result "phase" = [.null] := by
  have hstrings : ∀ schema ∈ [withPhase, withoutPhase] ++ [withPhase], ∀ field ∈ schema,
      field.2 = ColType.string := by decide
  have hagree : ∀ schema ∈ [withPhase, withoutPhase] ++ [withPhase],
      ∀ schema' ∈ [withPhase, withoutPhase] ++ [withPhase], AgreeOn schema schema' := by
    intro schema hschema schema' hschema' field hfield field' hfield' _
    rw [hstrings schema hschema field hfield, hstrings schema' hschema' field' hfield']
  obtain ⟨result, hresult, hrows, _, hcells⟩ :=
    conform_releases Reference.parquetFaithful (by decide) hagree fun schema hschema =>
      readableAs_olderFile schema (hstrings schema hschema)
  have hone : result.numRows = 1 := by
    rw [hrows]
    decide
  refine ⟨result, hresult, hone, ?_, ?_⟩
  · rw [hcells "uid" (by decide), if_pos (by decide)]
    rfl
  · rw [hcells "phase" (by decide), if_neg (by decide), hone]
    rfl

end ArgoExporter.ParquetIo
