/-
  ArgoExporter.Workflows.RowShape

  What the columns of one row have to do with each other, whatever object the
  row was read from: the identity is there, names come with their kinds, the
  duration is the one of the two timestamps next to it, and the failure columns
  are those of the two messages next to them.
-/

import ArgoExporter.Workflows.Collected
import ArgoExporter.Workflows.NormalizedTimes
import ArgoExporter.Workflows.NotFailed

namespace ArgoExporter.Workflows

open ArgoExporter.Py
open ArgoExporter.ParquetIo
open ArgoExporter.FailureTaxonomy

/-! ## Specification -/

/-- Both cells are null, or the name is not blank and the kind is one of these. -/
def NamedKind (kinds : List String) (kind name : Json) : Prop :=
  kind = .null ∧ name = .null ∨ (∃ k ∈ kinds, kind = .str k) ∧ IsNonBlank name

/-- A cell that is null or a UTC text that normalizes to itself. -/
def IsUtcText (cell : Json) : Prop :=
  cell = .null ∨ ∃ text, cell = .str text ∧ EmitsInstant cell text

/-- The duration is null unless both timestamps are there, and is computed from them again. -/
structure DurationOf (startedAt finishedAt duration : Json) : Prop where
  null_iff : duration = .null ↔ startedAt = .null ∨ finishedAt = .null
  ofColumns : ∃ seconds, durationSeconds startedAt finishedAt = .ok seconds ∧
    duration = Json.ofInt? seconds

/-- The classes a row can have. -/
def classNames : List String := failureRules.map Prod.fst ++ [failureClassUnknown]

/-- The failure columns follow from the messages of the row. -/
structure TaxonomyOf (py : Platform Bytes) (row : SharedColumns) : Prop where
  fingerprint_eq : row.failureFingerprint =
    (failureColumns py row.failedStepMessage row.message).failureFingerprint
  class_eq : row.failureClass =
    (failureColumns py row.failedStepMessage row.message).failureClass

structure Coherent (py : Platform Bytes) (row : SharedColumns) : Prop where
  uid : IsNonBlank row.uid
  «namespace» : IsNonBlank row.namespace
  name : IsNonBlank row.name
  phase : ∃ phase, phase ≠ "" ∧ row.phase = .str phase
  template : NamedKind ["cluster", "namespaced"] row.templateScope row.template
  trigger : NamedKind ["cron", "event", "user"] row.triggerKind row.triggerName
  createdAt : IsUtcText row.createdAt
  startedAt : IsUtcText row.startedAt
  finishedAt : IsUtcText row.finishedAt
  duration : DurationOf row.startedAt row.finishedAt row.durationSeconds
  taxonomy : TaxonomyOf py row

variable {Bytes : Type} {py : Platform Bytes}

/-! ## Names with kinds -/

theorem isNonBlank_label {wf : Json} (h : ValidWorkflow wf) {name : String}
    (htruthy : (((wf.get "metadata").get "labels").get name).truthy = true) :
    IsNonBlank (((wf.get "metadata").get "labels").get name) := by
  rcases h.metadata.2.2 with hnull | ⟨_, hall⟩
  · rw [hnull] at htruthy
    exact absurd htruthy (by simp [Json.get, Json.get?, Json.truthy])
  · rw [Json.get] at htruthy ⊢
    cases hget : ((wf.get "metadata").get "labels").get? name with
    | none =>
        rw [hget] at htruthy
        exact absurd htruthy (by simp [Json.truthy])
    | some label => exact hall _ (mem_fields_of_get? hget)

theorem namedKind_templateOf {wf : Json} (h : ValidWorkflow wf) :
    NamedKind ["cluster", "namespaced"] (templateOf wf).2 (templateOf wf).1 := by
  unfold templateOf
  dsimp only
  simp only [orEmptyDict_get]
  split
  · rename_i hname
    -- a template reference that is there has a name
    rcases h.spec.2 with hnull | ⟨_, hnonblank, _⟩
    · rw [hnull] at hname
      exact absurd hname (by simp [Json.get, Json.get?, Json.truthy])
    · refine Or.inr ⟨?_, hnonblank⟩
      split
      · exact ⟨"cluster", by simp, rfl⟩
      · exact ⟨"namespaced", by simp, rfl⟩
  · split
    · exact Or.inr ⟨⟨"cluster", by simp, rfl⟩, isNonBlank_label h ‹_›⟩
    · split
      · exact Or.inr ⟨⟨"namespaced", by simp, rfl⟩, isNonBlank_label h ‹_›⟩
      · exact Or.inl ⟨rfl, rfl⟩

theorem nonEmptyLabel_eq_some {labels : Json} {name value : String}
    (h : nonEmptyLabel labels name = some value) : IsNonBlank (.str value) := by
  unfold nonEmptyLabel at h
  split at h
  · split at h
    · exact absurd h (by simp)
    · rename_i s _ hblank
      exact ⟨s, by rw [Option.some.inj h], hblank⟩
  · exact absurd h (by simp)

/-- A trigger has one of three kinds and a name that is not blank. -/
theorem triggerOf_eq_some {wf : Json} {kind name : String} (h : triggerOf wf = some (kind, name)) :
    kind ∈ ["cron", "event", "user"] ∧ IsNonBlank (.str name) := by
  unfold triggerOf at h
  dsimp only at h
  split at h
  · rename_i cron hcron
    obtain ⟨rfl, rfl⟩ := Prod.mk.inj (Option.some.inj h)
    exact ⟨by simp, nonEmptyLabel_eq_some hcron⟩
  · split at h
    · rename_i sensor hsensor
      obtain ⟨rfl, rfl⟩ := Prod.mk.inj (Option.some.inj h)
      refine ⟨by simp, ?_⟩
      -- the trigger label goes before the sensor's
      cases htrigger : nonEmptyLabel (orEmptyDict ((orEmptyDict (wf.get "metadata")).get "labels"))
          labelTrigger with
      | some trigger => exact nonEmptyLabel_eq_some htrigger
      | none => exact nonEmptyLabel_eq_some hsensor
    · obtain ⟨creator, hcreator, hpair⟩ := Option.map_eq_some_iff.mp h
      obtain ⟨rfl, rfl⟩ := Prod.mk.inj hpair
      exact ⟨by simp, nonEmptyLabel_eq_some hcreator⟩

theorem namedKind_triggerOf (wf : Json) :
    NamedKind ["cron", "event", "user"] (Json.ofStr? ((triggerOf wf).map Prod.fst))
      (Json.ofStr? ((triggerOf wf).map Prod.snd)) := by
  cases h : triggerOf wf with
  | none => exact Or.inl ⟨rfl, rfl⟩
  | some trigger =>
      obtain ⟨hkind, hname⟩ := triggerOf_eq_some h
      exact Or.inr ⟨⟨trigger.1, hkind, rfl⟩, hname⟩

/-! ## Times -/

theorem isUtcText_of_normalize {value : Json} {text : Option String}
    (h : normalizeTimestamp value = .ok text) : IsUtcText (Json.ofStr? text) := by
  cases text with
  | none => exact Or.inl rfl
  | some text =>
      exact Or.inr ⟨text, rfl, emitsInstant_of_normalize (emitsInstant_of_normalize h).stable⟩

theorem ofStr?_eq_null_iff (text : Option String) : Json.ofStr? text = .null ↔ ¬ text.isSome = true := by
  cases text <;> simp [Json.ofStr?]

theorem ofInt?_eq_null_iff (n : Option Int) : Json.ofInt? n = .null ↔ ¬ n.isSome = true := by
  cases n <;> simp [Json.ofInt?]

theorem durationOf_sources {a b : Json} {start finish : Option String} {seconds : Option Int}
    (ha : normalizeTimestamp a = .ok start) (hb : normalizeTimestamp b = .ok finish)
    (h : durationSeconds a b = .ok seconds) :
    DurationOf (Json.ofStr? start) (Json.ofStr? finish) (Json.ofInt? seconds) := by
  have hexplains := explainsDuration_of_columns ha hb h
  refine ⟨?_, seconds, hexplains.ofColumns, rfl⟩
  rw [ofInt?_eq_null_iff, ofStr?_eq_null_iff, ofStr?_eq_null_iff, hexplains.isSome_iff, not_and_or]

/-! ## Failures -/

theorem failureClass_mem {message : Json} {name : String} (h : failureClass py message = some name) :
    name ∈ classNames := by
  obtain ⟨text, _, hname⟩ := Option.map_eq_some_iff.mp h
  rw [classNames, List.mem_append, List.mem_map]
  split at hname
  · rename_i rule hrule
    exact Or.inl ⟨rule, List.mem_of_find?_eq_some hrule, hname⟩
  · rw [← hname]
    exact Or.inr (List.mem_singleton_self _)

/-- The message that the failure columns are derived from. -/
def evidence (row : SharedColumns) : Option String :=
  (usableMessage row.failedStepMessage).or (usableMessage row.message)

theorem usable_evidence {row : SharedColumns} {text : String} (h : evidence row = some text) :
    usableMessage (.str text) = some text := by
  rw [evidence] at h
  cases hstep : usableMessage row.failedStepMessage with
  | some message =>
      rw [hstep, Option.some_or, Option.some.injEq] at h
      rw [← h]
      exact usableMessage_eq_some hstep
  | none =>
      rw [hstep, Option.none_or] at h
      exact usableMessage_eq_some h

/-- Without evidence both failure columns are null. -/
theorem TaxonomyOf.of_none {row : SharedColumns} (h : TaxonomyOf py row) (hnone : evidence row = none) :
    row.failureFingerprint = .null ∧ row.failureClass = .null := by
  rw [h.fingerprint_eq, h.class_eq]
  exact (failureColumns_null_iff py _ _).mpr (Option.or_eq_none_iff.mp hnone)

/-- With evidence the class is the one of its text, and the fingerprint is part of a digest. -/
theorem TaxonomyOf.of_some {row : SharedColumns} (h : TaxonomyOf py row) {text : String}
    (hsome : evidence row = some text) :
    (∃ normalized, row.failureFingerprint =
        .str (String.ofList ((py.sha256hex normalized).toList.take 12))) ∧
      ∃ name ∈ classNames, failureClass py (.str text) = some name ∧
        row.failureClass = .str name := by
  have husable := usable_evidence hsome
  have hcolumns : failureColumns py row.failedStepMessage row.message =
      ⟨Json.ofStr? ((normalizeFailure py (.str text)).map Prod.snd),
        Json.ofStr? (failureClass py (.str text))⟩ := by
    rw [failureColumns, show (usableMessage row.failedStepMessage).or (usableMessage row.message) =
      some text from hsome]
    rfl
  rw [h.fingerprint_eq, h.class_eq, hcolumns]
  constructor
  · rw [normalizeFailure, husable]
    exact ⟨_, rfl⟩
  · cases hclass : failureClass py (.str text) with
    | none =>
        rw [failureClass, husable] at hclass
        exact absurd hclass (by simp)
    | some name => exact ⟨name, failureClass_mem hclass, rfl, rfl⟩

/-! ## Rows -/

theorem coherent_toRow {wf : Json} {clusterName observedAt : String} {row : SnapshotRow}
    (h : toRow py wf clusterName observedAt = .ok row) : Coherent py row.shared := by
  obtain ⟨hvalid, step, createdAt, startedAt, finishedAt, duration, _, hcreated, hstarted,
    hfinished, hduration, rfl⟩ := toRow_eq_ok_iff.mp h
  have hidentity (field : String) (hfield : field ∈ ["uid", "name", "namespace"]) :
      IsNonBlank ((orEmptyDict (wf.get "metadata")).getD field (.str "")) := by
    have hnonblank := hvalid.metadata.2.1 field hfield
    rw [orEmptyDict_getD, getD_of_isNonBlank _ hnonblank]
    exact hnonblank
  exact {
    uid := hidentity "uid" (by simp)
    «namespace» := hidentity "namespace" (by simp)
    name := hidentity "name" (by simp)
    phase := by
      show ∃ phase, phase ≠ "" ∧
        ((orEmptyDict (wf.get "status")).get "phase").or (.str "Pending") = .str phase
      rw [orEmptyDict_get]
      have htext : IsText ((wf.get "status").get "phase") := isText_status hvalid (by decide)
      rcases htext with hnull | ⟨phase, hphase⟩
      · exact ⟨"Pending", by decide, by rw [hnull]; rfl⟩
      · by_cases hne : phase = ""
        · exact ⟨"Pending", by decide, by rw [hphase, hne]; rfl⟩
        · exact ⟨phase, hne, by rw [hphase]; simp [Json.or, Json.truthy, hne]⟩
    template := namedKind_templateOf hvalid
    trigger := namedKind_triggerOf wf
    createdAt := isUtcText_of_normalize hcreated
    startedAt := isUtcText_of_normalize hstarted
    finishedAt := isUtcText_of_normalize hfinished
    duration := durationOf_sources hstarted hfinished hduration
    taxonomy := ⟨rfl, rfl⟩ }

/-! ## Origin -/

/-- The row is the one of an object in a complete listing among these answers. -/
def ListedIn (py : Platform Bytes) (observedAt : String)
    (answers : List (Cluster × K8sApi.ListOutcome)) (row : SnapshotRow) : Prop :=
  ∃ cluster items, (cluster, .ok (items, true)) ∈ answers ∧
    ∃ wf ∈ items, toRow py wf cluster.name observedAt = .ok row

theorem origin_of_converts {observedAt : String} {cluster : Cluster} {items : List Json}
    {rows : List SnapshotRow} (h : Converts py observedAt cluster items rows) :
    ∀ row ∈ rows, ∃ wf ∈ items, toRow py wf cluster.name observedAt = .ok row := by
  induction h with
  | nil => simp
  | cons hrow _ ih =>
      refine List.forall_mem_cons.mpr ⟨⟨_, List.mem_cons_self, hrow⟩, fun row hmem => ?_⟩
      obtain ⟨wf, hwf, hconverts⟩ := ih row hmem
      exact ⟨wf, List.mem_cons_of_mem _ hwf, hconverts⟩

theorem listedIn_of_contributions {observedAt : String}
    {answers : List (Cluster × K8sApi.ListOutcome)}
    {parts : List (List SnapshotRow × ClusterStat)} (h : Contributions py observedAt answers parts) :
    ∀ row ∈ parts.flatMap Prod.fst, ListedIn py observedAt answers row := by
  induction h with
  | nil => simp
  | @cons answer part answers parts ha _ ih =>
      rw [List.flatMap_cons, List.forall_mem_append]
      constructor
      · intro row hrow
        cases hok : part.2.ok with
        | true =>
            obtain ⟨items, converted, hout, hconverts⟩ := ha.ok_iff.mp hok
            obtain ⟨hrows, _⟩ := ha.rows_of_ok items converted hout hconverts
            rw [hrows] at hrow
            have hanswer : (answer.1, .ok (items, true)) = answer := by rw [← hout]
            exact ⟨answer.1, items, by rw [hanswer]; exact List.mem_cons_self, origin_of_converts hconverts row hrow⟩
        | false =>
            rw [(ha.nothing_of_not_ok hok).1] at hrow
            exact absurd hrow (by simp)
      · intro row hrow
        obtain ⟨cluster, items, hmem, hwf⟩ := ih row hrow
        exact ⟨cluster, items, List.mem_cons_of_mem _ hmem, hwf⟩

theorem listedIn_of_fetch {observedAt : String} {answers : List (Cluster × K8sApi.ListOutcome)}
    {rows : List SnapshotRow} {stats : List ClusterStat}
    (h : fetchWorkflows py observedAt answers = .ok (rows, stats)) :
    ∀ row ∈ rows, ListedIn py observedAt answers row := by
  obtain ⟨parts, hparts, rfl, _⟩ := contributions_of_fetch h
  exact listedIn_of_contributions hparts

end ArgoExporter.Workflows
