/-
  ArgoExporter.Main.StoredRows

  Where the rows of the stored ledger come from.  After any run of one exporter
  a row of `runs.parquet` is, column for column, the row of an object that a
  complete listing of its cluster had in the cycle it was last seen in, so its
  columns go together as those of one extraction do.
-/

import ArgoExporter.Main.LedgerHistory
import ArgoExporter.Workflows.RowShape

namespace ArgoExporter.Main

open ArgoExporter.Py
open ArgoExporter.ParquetIo
open ArgoExporter.S3io
open ArgoExporter.Workflows
open ArgoExporter.Ledger (Visit identity)

variable {Bytes : Type} {py : Platform Bytes} {cfg : Config}

/-! ## Specification -/

/-- What the clusters answered in one cycle, and the time of the cycle. -/
structure Listing where
  time : Stamp
  entries : List (Cluster × K8sApi.ListOutcome)

def CycleInputs.listing (inputs : CycleInputs cfg) : Listing :=
  ⟨inputs.now, inputs.answers.entries⟩

/-- The row is the one of an object in a complete listing of its cluster. -/
def Listing.Shows (py : Platform Bytes) (listing : Listing) (row : SnapshotRow) : Prop :=
  ListedIn py listing.time.text listing.entries row

/-- The run of the row was first seen in one of the listings and last seen in that one or a later
    one, which has the object of the row. -/
def SeenIn (py : Platform Bytes) (listings : List Listing) (row : LedgerRow) : Prop :=
  ∃ (i j : Nat) (first last : Listing),
    i ≤ j ∧ listings[i]? = some first ∧ listings[j]? = some last ∧
    row.firstSeenAt = .str first.time.text ∧ row.lastSeenAt = .str last.time.text ∧
    last.Shows py ⟨row.shared, .str last.time.text⟩

/-- A ledger has one row for a run, and every row was seen in the listings. -/
structure StoresSeenRows (py : Platform Bytes) (listings : List Listing) (rows : List LedgerRow) :
    Prop where
  oneRow : (rows.map fun row => identity row.shared).Nodup
  seen : ∀ row ∈ rows, SeenIn py listings row

theorem storesSeenRows_nil (listings : List Listing) : StoresSeenRows py listings [] :=
  ⟨List.nodup_nil, by simp⟩

/-! ## One merge -/

theorem SeenIn.append {listings : List Listing} {row : LedgerRow} (h : SeenIn py listings row)
    (later : List Listing) : SeenIn py (listings ++ later) row := by
  obtain ⟨i, j, first, last, hle, hfirst, hlast, hrest⟩ := h
  refine ⟨i, j, first, last, hle, ?_, ?_, hrest⟩
  · rw [List.getElem?_append_left (List.getElem?_eq_some_iff.mp hfirst).1, hfirst]
  · rw [List.getElem?_append_left (List.getElem?_eq_some_iff.mp hlast).1, hlast]

theorem StoresSeenRows.append {listings : List Listing} {rows : List LedgerRow}
    (h : StoresSeenRows py listings rows) (later : List Listing) :
    StoresSeenRows py (listings ++ later) rows :=
  ⟨h.oneRow, fun row hrow => (h.seen row hrow).append later⟩

/-- An observation is the newest of the run; its first time is the one the ledger had, if any. -/
theorem seenIn_of_observed {listings : List Listing} {listing : Listing} {existing : List LedgerRow}
    (hexisting : ∀ row ∈ existing, SeenIn py listings row) {observed : SnapshotRow}
    (hsettled : Ledger.rederive py observed = observed.shared)
    (hshows : listing.Shows py observed) (key : Ledger.Identity) :
    SeenIn py (listings ++ [listing]) ⟨Ledger.rederive py observed,
      Ledger.firstSeen (Ledger.storedRow existing key) listing.time.text,
      .str listing.time.text⟩ := by
  have hlast : (listings ++ [listing])[listings.length]? = some listing :=
    List.getElem?_concat_length
  have hobserved : observed = ⟨observed.shared, .str listing.time.text⟩ := by
    obtain ⟨cluster, items, _, wf, _, hwf⟩ := hshows
    rw [← (toRow_stamps hwf).2]
  rw [hsettled]
  rw [hobserved] at hshows
  cases hstored : Ledger.storedRow existing key with
  | none =>
      exact ⟨listings.length, listings.length, listing, listing, Nat.le_refl _, hlast, hlast, rfl,
        rfl, hshows⟩
  | some row =>
      obtain ⟨i, _, first, _, _, hfirst, _, hfirstSeen, _⟩ :=
        hexisting row (Ledger.storedRow_mem hstored).1
      have hi : i < listings.length := (List.getElem?_eq_some_iff.mp hfirst).1
      refine ⟨i, listings.length, first, listing, Nat.le_of_lt hi, ?_, hlast, hfirstSeen, rfl,
        hshows⟩
      rw [List.getElem?_append_left hi, hfirst]

/-- A merge with the rows of one more listing has rows seen so far. -/
theorem storesSeenRows_merge {listings : List Listing} {listing : Listing}
    {existing merged : List LedgerRow} {observed : List SnapshotRow} {retentionDays : Int}
    (h : StoresSeenRows py listings existing)
    (hsettled : ∀ row ∈ observed, Ledger.rederive py row = row.shared)
    (hshows : ∀ row ∈ observed, listing.Shows py row)
    (hmerge : Ledger.merge py existing observed listing.time.text retentionDays = .ok merged) :
    StoresSeenRows py (listings ++ [listing]) merged := by
  refine ⟨Ledger.merge_nodup py hmerge, fun row hrow => ?_⟩
  rcases Ledger.mem_merge_cases hmerge hrow with hkept | ⟨seen, hmem, hnew⟩
  · exact (h.seen row hkept).append [listing]
  · rw [hnew]
    exact seenIn_of_observed h.seen (hsettled seen hmem) (hshows seen hmem) _

/-! ## One cycle -/

/-- A cycle that reaches the ledger observes the rows of its listing. -/
theorem shows_of_visit {inputs : CycleInputs cfg} {store : ObjectStore Bytes} {visit : Visit}
    (h : visit? py inputs store = some visit) : ∀ row ∈ visit.rows, inputs.listing.Shows py row := by
  rw [rows_of_visit h, observedRows]
  split
  · rename_i rows stats hfetch
    exact listedIn_of_fetch hfetch
  · simp

/-- However a cycle ends, the ledger it leaves has rows seen so far. -/
theorem storesSeenRows_runCycle (hpq : ParquetFaithful py) (hjson : JsonFaithful py)
    {listings : List Listing} {store : ObjectStore Bytes} {table : Table}
    (hdecode : parquetBytesToTable py (store (objectKey cfg.destPrefix "runs.parquet")) runsSchema =
      .ok table)
    (h : StoresSeenRows py listings (ledgerRows table)) (inputs : CycleInputs cfg) :
    ∃ table', parquetBytesToTable py
        ((runCycle py cfg inputs store).2 (objectKey cfg.destPrefix "runs.parquet")) runsSchema =
          .ok table' ∧
      StoresSeenRows py (listings ++ [inputs.listing]) (ledgerRows table') := by
  cases hvisit : visit? py inputs store with
  | none =>
      rw [runs_of_visit_none hvisit]
      exact ⟨table, hdecode, h.append _⟩
  | some visit =>
      obtain ⟨stored, merged, data, hsettled, hstored, hmerge, hruns, hdata⟩ :=
        runs_of_visit_some hpq hjson hvisit
      rw [hdecode, Except.ok.injEq] at hstored
      subst hstored
      rw [time_of_visit hvisit] at hmerge
      rw [hruns]
      refine ⟨_, hdata, ?_⟩
      rw [ledgerRows_tableOf]
      exact storesSeenRows_merge h hsettled (shows_of_visit hvisit) hmerge

/-! ## Whole runs -/

/-- After any run on a prefix without a ledger, the ledger decodes, has one row for a run, and every
    row is the row of an object its cluster listed in the cycle it was last seen in. -/
theorem storesSeenRows_exporterRun (hpq : ParquetFaithful py) (hjson : JsonFaithful py)
    {store : ObjectStore Bytes} (hempty : store (objectKey cfg.destPrefix "runs.parquet") = none)
    (cycles : List (CycleInputs cfg)) :
    ∃ table, parquetBytesToTable py
        ((exporterRun py store cycles).store (objectKey cfg.destPrefix "runs.parquet"))
        runsSchema = .ok table ∧
      StoresSeenRows py (cycles.map CycleInputs.listing) (ledgerRows table) := by
  induction cycles using List.reverseRecOn with
  | nil =>
      refine ⟨tableOf [] runsSchema, ?_, storesSeenRows_nil []⟩
      show parquetBytesToTable py (store _) runsSchema = _
      rw [hempty]
      exact decode_none hpq (Or.inr rfl)
  | append_singleton cycles inputs ih =>
      obtain ⟨table, hdecode, hseen⟩ := ih
      rw [exporterRun_concat, List.map_append]
      exact storesSeenRows_runCycle hpq hjson hdecode hseen inputs

theorem SeenIn.coherent {listings : List Listing} {row : LedgerRow}
    (h : SeenIn py listings row) : Coherent py row.shared := by
  obtain ⟨_, _, _, _, _, _, _, _, _, cluster, items, _, wf, _, hwf⟩ := h
  exact coherent_toRow hwf

/-- After any run on a prefix without a ledger, however its cycles end, the ledger has one row for a
    run, the row of an object that was listed in the cycle it was last seen in, and what the
    columns of a row say fits together. -/
theorem stored_rows_are_listed_objects (hpq : ParquetFaithful py) (hjson : JsonFaithful py)
    {store : ObjectStore Bytes} (hempty : store (objectKey cfg.destPrefix "runs.parquet") = none)
    (cycles : List (CycleInputs cfg)) :
    ∃ table, parquetBytesToTable py
        ((exporterRun py store cycles).store (objectKey cfg.destPrefix "runs.parquet"))
        runsSchema = .ok table ∧
      StoresSeenRows py (cycles.map CycleInputs.listing) (ledgerRows table) ∧
      ∀ row ∈ ledgerRows table, Coherent py row.shared := by
  obtain ⟨table, hdecode, hstored⟩ := storesSeenRows_exporterRun hpq hjson hempty cycles
  exact ⟨table, hdecode, hstored, fun row hrow => (hstored.seen row hrow).coherent⟩

/-- A published cycle, then one that stops before its sidecar. -/
theorem stored_rows_are_listed_objects_torn :
    ∃ table, parquetBytesToTable Reference.platform
        ((exporterRun Reference.platform Reference.emptyStore
          [Reference.cycle 0 'a' .served,
            Reference.cycle 61 'b' (.failed ⟨.clientError "InternalError", "put"⟩ false)]).store
          (objectKey Reference.config.destPrefix "runs.parquet")) runsSchema = .ok table ∧
      StoresSeenRows Reference.platform
        ([Reference.cycle 0 'a' .served,
          Reference.cycle 61 'b' (.failed ⟨.clientError "InternalError", "put"⟩ false)].map
            CycleInputs.listing) (ledgerRows table) ∧
      ∀ row ∈ ledgerRows table, Coherent Reference.platform row.shared :=
  stored_rows_are_listed_objects Reference.parquetFaithful Reference.jsonFaithful rfl _

end ArgoExporter.Main
