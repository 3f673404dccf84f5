/-
  ArgoExporter.Workflows.Timestamps

  Which timestamps `to_row` copes with.  Parsing is guarded and gives null;
  conversion to UTC is not, and raises when the instant is outside the years 1
  to 9999.  A valid object becomes a row exactly when no timestamp that is
  looked at does that.
-/

import ArgoExporter.Py.Isoformat
import ArgoExporter.Workflows.RowTypes

namespace ArgoExporter.Workflows

open ArgoExporter.Py
open ArgoExporter.ParquetIo

/-! ## Specification -/

/-- The value parses as a timestamp with a zone. -/
def Usable (value : Json) : Prop := ∃ naive offset, parseTs value = some ⟨naive, some offset⟩

/-- The UTC instant of a timestamp, if it is one, is in the years 1 to 9999. -/
def UtcInRange (value : Json) : Prop :=
  ∀ naive offset, parseTs value = some ⟨naive, some offset⟩ →
    0 ≤ (naive.micros : Int) - offset ∧ (naive.micros : Int) - offset < maxMicros

/-- A timestamp column: null or a UTC text with its `Z`, and null for a source that is of no use. -/
structure Normalized (source column : Json) : Prop where
  nullOrUtc : column = .null ∨
    ∃ utc, column = .str (isoformatZ utc) ∧ (isoformatZ utc).toList.getLast? = some 'Z'
  unusable : ¬ Usable source → column = .null

/-- What a row says about time. -/
structure TimesNormalized (wf : Json) (row : SnapshotRow) : Prop where
  createdAt : Normalized ((wf.get "metadata").get "creationTimestamp") row.shared.createdAt
  startedAt : Normalized ((wf.get "status").get "startedAt") row.shared.startedAt
  finishedAt : Normalized ((wf.get "status").get "finishedAt") row.shared.finishedAt
  duration : row.shared.startedAt = .null ∨ row.shared.finishedAt = .null →
    row.shared.durationSeconds = .null

/-- Failing pods without a usable start come after those with one. -/
def UnusableLast (nodes : List (String × Json)) : Prop :=
  ∀ e ∈ failures nodes, ∀ e' ∈ failures nodes, Usable (e.2.get "startedAt") →
    ¬ Usable (e'.2.get "startedAt") → Precedes e e'

/-- The timestamps of the object and of its failing pods have UTC instants in range. -/
structure TimesInRange (wf : Json) (nodes : List (String × Json)) : Prop where
  createdAt : UtcInRange ((wf.get "metadata").get "creationTimestamp")
  startedAt : UtcInRange ((wf.get "status").get "startedAt")
  finishedAt : UtcInRange ((wf.get "status").get "finishedAt")
  nodes : ∀ e ∈ failures nodes, UtcInRange (e.2.get "startedAt")

/-! ## Conversion to UTC -/

theorem normalizeTimestamp_of_usable {value : Json} {naive : Naive} {offset : Int}
    (h : parseTs value = some ⟨naive, some offset⟩) :
    normalizeTimestamp value = (astimezoneUtc naive offset).map fun utc => some (isoformatZ utc) := by
  unfold normalizeTimestamp
  rw [h]
  dsimp only
  cases astimezoneUtc naive offset with
  | ok utc => rfl
  | error e => rfl

theorem normalizeTimestamp_of_unusable {value : Json} (h : ¬ Usable value) :
    normalizeTimestamp value = .ok none := by
  unfold normalizeTimestamp
  split
  · rename_i naive offset hparse
    exact absurd ⟨naive, offset, hparse⟩ h
  · rfl

theorem normalizeTimestamp_ok_iff (value : Json) :
    (∃ text, normalizeTimestamp value = .ok text) ↔ UtcInRange value := by
  by_cases h : Usable value
  · obtain ⟨naive, offset, hparse⟩ := h
    have hrange : UtcInRange value ↔ ∃ utc, astimezoneUtc naive offset = .ok utc := by
      rw [astimezoneUtc_ok_iff]
      refine ⟨fun hr => hr naive offset hparse, fun hr naive' offset' hparse' => ?_⟩
      rw [hparse, Option.some.injEq, DateTime.mk.injEq, Option.some.injEq] at hparse'
      obtain ⟨rfl, rfl⟩ := hparse'
      exact hr
    rw [hrange, normalizeTimestamp_of_usable hparse]
    exact exists_map_eq_ok
  · rw [normalizeTimestamp_of_unusable h]
    exact ⟨fun _ naive offset hparse => absurd ⟨naive, offset, hparse⟩ h, fun _ => ⟨none, rfl⟩⟩

theorem getLast?_isoformatZ (utc : Naive) : (isoformatZ utc).toList.getLast? = some 'Z' := by
  rw [isoformatZ, String.toList_ofList, List.getLast?_append]
  rfl

theorem normalized_of_ok {source : Json} {text : Option String}
    (h : normalizeTimestamp source = .ok text) : Normalized source (Json.ofStr? text) := by
  by_cases hu : Usable source
  · obtain ⟨naive, offset, hparse⟩ := hu
    refine ⟨Or.inr ?_, fun hn => absurd ⟨naive, offset, hparse⟩ hn⟩
    rw [normalizeTimestamp_of_usable hparse] at h
    obtain ⟨utc, _, rfl⟩ := map_eq_ok.mp h
    exact ⟨utc, rfl, getLast?_isoformatZ utc⟩
  · rw [normalizeTimestamp_of_unusable hu, Except.ok.injEq] at h
    subst h
    exact ⟨Or.inl rfl, fun _ => rfl⟩

/-- A column is null only for a source without use. -/
theorem unusable_of_null {source : Json} {text : Option String}
    (h : normalizeTimestamp source = .ok text) (hnull : Json.ofStr? text = .null) :
    ¬ Usable source := by
  rintro ⟨naive, offset, hparse⟩
  rw [normalizeTimestamp_of_usable hparse] at h
  obtain ⟨utc, _, rfl⟩ := map_eq_ok.mp h
  exact absurd hnull (by simp [Json.ofStr?])

/-! ## Duration -/

theorem durationSeconds_of_unusable {a b : Json} (h : ¬ Usable a ∨ ¬ Usable b) :
    durationSeconds a b = .ok none := by
  unfold durationSeconds
  split
  · rename_i start startOffset finish finishOffset ha hb
    rcases h with h | h
    · exact absurd ⟨start, startOffset, ha⟩ h
    · exact absurd ⟨finish, finishOffset, hb⟩ h
  · rfl

/-- Two timestamps in range have a duration, or one of them is of no use. -/
theorem durationSeconds_ok {a b : Json} (ha : UtcInRange a) (hb : UtcInRange b) :
    ∃ duration, durationSeconds a b = .ok duration := by
  unfold durationSeconds
  split
  · rename_i start startOffset finish finishOffset hstart hfinish
    obtain ⟨startUtc, hs⟩ := (astimezoneUtc_ok_iff _ _).mpr (ha _ _ hstart)
    obtain ⟨finishUtc, hf⟩ := (astimezoneUtc_ok_iff _ _).mpr (hb _ _ hfinish)
    rw [hs, hf]
    exact ⟨_, rfl⟩
  · exact ⟨none, rfl⟩

/-! ## Selection keys -/

theorem selectionKey_of_usable {e : String × Json} {naive : Naive} {offset : Int}
    (h : parseTs (e.2.get "startedAt") = some ⟨naive, some offset⟩) :
    selectionKey e = (astimezoneUtc naive offset).map fun utc =>
      toLex (0, toLex (utc.micros, e.1)) := by
  unfold selectionKey
  rw [h]
  dsimp only
  cases astimezoneUtc naive offset with
  | ok utc => rfl
  | error e => rfl

theorem selectionKey_of_unusable {e : String × Json} (h : ¬ Usable (e.2.get "startedAt")) :
    selectionKey e = .ok (toLex (1, toLex (Naive.max.micros, e.1))) := by
  unfold selectionKey
  split
  · rename_i naive offset hparse
    exact absurd ⟨naive, offset, hparse⟩ h
  · rfl

theorem selectionKey_ok_iff (e : String × Json) :
    (∃ key, selectionKey e = .ok key) ↔ UtcInRange (e.2.get "startedAt") := by
  rw [← normalizeTimestamp_ok_iff]
  by_cases h : Usable (e.2.get "startedAt")
  · obtain ⟨naive, offset, hparse⟩ := h
    rw [selectionKey_of_usable hparse, normalizeTimestamp_of_usable hparse, exists_map_eq_ok,
      exists_map_eq_ok]
  · rw [selectionKey_of_unusable h, normalizeTimestamp_of_unusable h]
    exact ⟨fun _ => ⟨none, rfl⟩, fun _ => ⟨_, rfl⟩⟩

theorem unusableLast_of_inRange {nodes : List (String × Json)}
    (h : ∀ e ∈ failures nodes, UtcInRange (e.2.get "startedAt")) : UnusableLast nodes := by
  intro e he e' he' husable hunusable
  obtain ⟨naive, offset, hparse⟩ := husable
  obtain ⟨utc, hutc⟩ := (astimezoneUtc_ok_iff _ _).mpr (h e he naive offset hparse)
  have hkey := selectionKey_of_usable hparse
  rw [hutc] at hkey
  refine ⟨_, _, hkey, selectionKey_of_unusable hunusable, ?_⟩
  -- the first component of the key tells the two groups apart
  exact Prod.Lex.toLex_lt_toLex.mpr (Or.inl Nat.one_pos)

variable {Bytes : Type} {py : Platform Bytes}

/-- `failed_step` returns when the nodes decode and the starts of the failing pods convert. -/
theorem failedStep_ok_iff {wf : Json} :
    (∃ step, failedStep py wf = .ok step) ↔
      ∃ nodes, nodesOf py (wf.get "status") = .ok nodes ∧
        ∀ e ∈ failures nodes, UtcInRange (e.2.get "startedAt") := by
  constructor
  · rintro ⟨step, h⟩
    obtain ⟨nodes, hnodes, hkeyed⟩ := keyed_of_failedStep h
    rw [nodesOf_orEmptyDict] at hnodes
    refine ⟨nodes, hnodes, fun e he => ?_⟩
    exact (selectionKey_ok_iff e).mp (withKeys_ok_iff.mp hkeyed e he)
  · rintro ⟨nodes, hnodes, hrange⟩
    obtain ⟨keyed, hkeyed⟩ := withKeys_ok_iff.mpr fun e he =>
      (selectionKey_ok_iff e).mpr (hrange e he)
    rw [← nodesOf_orEmptyDict] at hnodes
    exact failedStep_of_keyed hnodes hkeyed

/-! ## Rows -/

/-- An object becomes a row when it is valid, its nodes decode and its timestamps convert. -/
theorem toRow_ok_iff {wf : Json} {clusterName observedAt : String} :
    (∃ row, toRow py wf clusterName observedAt = .ok row) ↔
      ValidWorkflow wf ∧
        ∃ nodes, nodesOf py (wf.get "status") = .ok nodes ∧ TimesInRange wf nodes := by
  constructor
  · rintro ⟨row, h⟩
    obtain ⟨hvalid, step, createdAt, startedAt, finishedAt, _, hstep, hcreated, hstarted, hfinished,
      _⟩ := toRow_eq_ok_iff.mp h
    obtain ⟨nodes, hnodes, hrange⟩ := failedStep_ok_iff.mp ⟨step, hstep⟩
    exact ⟨hvalid, nodes, hnodes, (normalizeTimestamp_ok_iff _).mp ⟨_, hcreated⟩,
      (normalizeTimestamp_ok_iff _).mp ⟨_, hstarted⟩,
      (normalizeTimestamp_ok_iff _).mp ⟨_, hfinished⟩, hrange⟩
  · rintro ⟨hvalid, nodes, hnodes, hrange⟩
    obtain ⟨step, hstep⟩ := failedStep_ok_iff.mpr ⟨nodes, hnodes, hrange.nodes⟩
    obtain ⟨createdAt, hcreated⟩ := (normalizeTimestamp_ok_iff _).mpr hrange.createdAt
    obtain ⟨startedAt, hstarted⟩ := (normalizeTimestamp_ok_iff _).mpr hrange.startedAt
    obtain ⟨finishedAt, hfinished⟩ := (normalizeTimestamp_ok_iff _).mpr hrange.finishedAt
    obtain ⟨duration, hduration⟩ := durationSeconds_ok hrange.startedAt hrange.finishedAt
    exact ⟨_, toRow_eq_ok_iff.mpr ⟨hvalid, step, createdAt, startedAt, finishedAt, duration, hstep,
      hcreated, hstarted, hfinished, hduration, rfl⟩⟩

/-- Whatever its sources, a row has normalized timestamps, and no duration without both ends. -/
theorem timesNormalized_toRow {wf : Json} {clusterName observedAt : String} {row : SnapshotRow}
    (h : toRow py wf clusterName observedAt = .ok row) : TimesNormalized wf row := by
  obtain ⟨_, step, createdAt, startedAt, finishedAt, duration, _, hcreated, hstarted, hfinished,
    hduration, rfl⟩ := toRow_eq_ok_iff.mp h
  refine ⟨normalized_of_ok hcreated, normalized_of_ok hstarted, normalized_of_ok hfinished, ?_⟩
  intro hnull
  have hunusable : ¬ Usable ((wf.get "status").get "startedAt") ∨
      ¬ Usable ((wf.get "status").get "finishedAt") :=
    hnull.imp (unusable_of_null hstarted) (unusable_of_null hfinished)
  rw [durationSeconds_of_unusable hunusable, Except.ok.injEq] at hduration
  show Json.ofInt? duration = .null
  rw [← hduration]
  rfl

/-- A valid object becomes a row with normalized timestamps, and its failing pods without a usable
    start are ordered last, exactly when every timestamp that is looked at converts to UTC. -/
theorem toRow_handles_timestamps_iff {wf : Json} {nodes : List (String × Json)}
    (hvalid : ValidWorkflow wf) (hnodes : nodesOf py (wf.get "status") = .ok nodes)
    (clusterName observedAt : String) :
    (∃ row, toRow py wf clusterName observedAt = .ok row ∧ TimesNormalized wf row ∧
      UnusableLast nodes) ↔ TimesInRange wf nodes := by
  constructor
  · rintro ⟨row, h, _⟩
    obtain ⟨_, nodes', hnodes', hrange⟩ := toRow_ok_iff.mp ⟨row, h⟩
    rw [hnodes, Except.ok.injEq] at hnodes'
    rw [hnodes']
    exact hrange
  · intro hrange
    obtain ⟨row, h⟩ : ∃ row, toRow py wf clusterName observedAt = .ok row :=
      toRow_ok_iff.mpr ⟨hvalid, nodes, hnodes, hrange⟩
    exact ⟨row, h, timesNormalized_toRow h, unusableLast_of_inRange hrange.nodes⟩

/-- A run whose start is of no use, and whose two pods failed, only the second one with a usable
    start. -/
def unstartedWorkflow : Json :=
  Reference.workflow "u-1" (.obj [("phase", .str "Failed"), ("startedAt", .str "yesterday"),
    ("finishedAt", .str "2026-01-01T02:00:00+02:00"),
    ("nodes", .obj [
      ("n-1", .obj [("phase", .str "Failed"), ("type", .str "Pod"), ("startedAt", .str "")]),
      ("n-2", .obj [("phase", .str "Error"), ("type", .str "Pod"),
        ("startedAt", .str "2026-01-01T00:30:00Z")])])])

/-- The two nodes of the run. -/
def unstartedNodes : List (String × Json) :=
  ((unstartedWorkflow.get "status").get "nodes").fields

theorem timesInRange_unstarted : TimesInRange unstartedWorkflow unstartedNodes where
  createdAt := (normalizeTimestamp_ok_iff _).mp ⟨_, rfl⟩
  startedAt := (normalizeTimestamp_ok_iff _).mp ⟨_, rfl⟩
  finishedAt := (normalizeTimestamp_ok_iff _).mp ⟨_, rfl⟩
  nodes := by
    intro e he
    have hmem : e ∈ unstartedNodes := List.mem_of_mem_filter he
    simp only [unstartedNodes, unstartedWorkflow, Reference.workflow] at hmem
    refine (normalizeTimestamp_ok_iff _).mp ?_
    rcases List.mem_cons.mp hmem with rfl | hmem
    · exact ⟨_, rfl⟩
    · rw [List.mem_singleton.mp hmem]
      exact ⟨some "2026-01-01T00:30:00Z", by decide⟩

/-- Timestamps that do not parse cost the run its start, not its row. -/
theorem toRow_handles_timestamps_iff_unstarted :
    ∃ row, toRow Reference.platform unstartedWorkflow "alpha" "" = .ok row ∧
      TimesNormalized unstartedWorkflow row ∧ UnusableLast unstartedNodes := by
  have hvalid : ValidWorkflow unstartedWorkflow :=
    (validateWorkflow_eq_ok_iff Reference.platform unstartedWorkflow none).mp rfl
  exact (toRow_handles_timestamps_iff hvalid rfl "alpha" "").mpr timesInRange_unstarted

/-- A run that started in the first hour of year 1, in a zone one hour ahead of UTC. -/
def earlyWorkflow : Json :=
  Reference.workflow "u-1" (.obj [("phase", .str "Running"),
    ("startedAt", .str "0001-01-01T00:00:00+01:00")])

/-- Its start parses, and its conversion to UTC raises: there is no row. -/
theorem early_timestamp_discards_row :
    ValidWorkflow earlyWorkflow ∧
      nodesOf Reference.platform (earlyWorkflow.get "status") = .ok [] ∧
      toRow Reference.platform earlyWorkflow "alpha" "" =
        .error ⟨.overflowError, "date value out of range"⟩ ∧
      ¬ ∃ row, toRow Reference.platform earlyWorkflow "alpha" "" = .ok row ∧
        TimesNormalized earlyWorkflow row ∧ UnusableLast [] := by
  have hraises : toRow Reference.platform earlyWorkflow "alpha" "" =
      .error ⟨.overflowError, "date value out of range"⟩ := by rfl
  refine ⟨(validateWorkflow_eq_ok_iff Reference.platform earlyWorkflow none).mp rfl, rfl, hraises, ?_⟩
  rintro ⟨row, hrow, _⟩
  rw [hraises] at hrow
  exact absurd hrow (by simp)

end ArgoExporter.Workflows
