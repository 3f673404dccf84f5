/-
  ArgoExporter.Workflows.Collection

  `fetch_workflows` over all clusters.  What one cluster adds is a function of
  its own listing (`collectCluster`), so collection is a concatenation and one
  cluster's part of it does not depend on the others.
-/

import ArgoExporter.Reference
import ArgoExporter.Workflows.Validation

namespace ArgoExporter.Workflows

open ArgoExporter.Py
open ArgoExporter.ParquetIo

variable {Bytes : Type} (py : Platform Bytes) (observedAt : String)

/-! ## One cluster -/

/-- Every item becomes a row, and these are the rows in order. -/
def Converts (cluster : Cluster) (items : List Json) (rows : List SnapshotRow) : Prop :=
  List.Forall₂ (fun wf row => toRow py wf cluster.name observedAt = .ok row) items rows

theorem Converts.unique {cluster : Cluster} {items : List Json} {rows rows' : List SnapshotRow}
    (h : Converts py observedAt cluster items rows)
    (h' : Converts py observedAt cluster items rows') : rows = rows' := by
  induction h generalizing rows' with
  | nil => cases h'; rfl
  | cons hrow _ ih =>
      cases h' with
      | cons hrow' hrest =>
          rw [hrow, Except.ok.injEq] at hrow'
          rw [hrow', ih hrest]

/-- The conversion loop succeeds exactly when every item converts; the check it makes before
    `to_row` is the one `to_row` makes itself. -/
theorem convertItems_eq_ok_iff (cluster : Cluster) (index : Nat) (items : List Json)
    (rows : List SnapshotRow) :
    convertItems py cluster.name observedAt index items = .ok rows ↔
      Converts py observedAt cluster items rows := by
  induction items generalizing index rows with
  | nil =>
      rw [convertItems, Except.ok.injEq]
      constructor
      · rintro rfl
        exact List.Forall₂.nil
      · intro h
        cases h
        rfl
  | cons wf items ih =>
      rw [convertItems]
      constructor
      · intro h
        obtain ⟨⟨⟩, _, h⟩ := bind_eq_ok.mp h
        obtain ⟨row, hrow, h⟩ := bind_eq_ok.mp h
        obtain ⟨rest, hrest, h⟩ := bind_eq_ok.mp h
        rw [pure_eq_ok, Except.ok.injEq] at h
        subst h
        exact List.Forall₂.cons hrow ((ih _ _).mp hrest)
      · intro h
        cases h with
        | @cons _ row _ rest hrow hrest =>
            -- validation accepts the same objects under every index
            have hvalid : validateWorkflow py wf (some index) = .ok () := by
              obtain ⟨⟨⟩, hnone, _⟩ := bind_eq_ok.mp (show _ = Except.ok row from hrow)
              exact (validateWorkflow_eq_ok_iff py wf _).mpr
                ((validateWorkflow_eq_ok_iff py wf none).mp hnone)
            rw [hvalid, ok_bind, hrow, ok_bind, (ih _ _).mpr hrest]
            rfl

/-- The listing outcomes that `fetch_workflows` is written for: a malformed response, an incomplete
    listing, or a complete one. -/
def Handled (outcome : K8sApi.ListOutcome) : Prop :=
  ∀ e, outcome = .error e → e.cls = .kubernetesResponseError

/-- What a cluster with this outcome contributes: its rows and its entry. -/
structure Contribution (answer : Cluster × K8sApi.ListOutcome) (rows : List SnapshotRow)
    (stat : ClusterStat) : Prop where
  name : stat.name = answer.1.name
  ok_iff : stat.ok = true ↔
    ∃ items converted, answer.2 = .ok (items, true) ∧ Converts py observedAt answer.1 items converted
  rows_of_ok : ∀ items converted, answer.2 = .ok (items, true) →
    Converts py observedAt answer.1 items converted →
      rows = converted ∧ stat.workflows = items.length
  nothing_of_not_ok : stat.ok = false → rows = [] ∧ stat.workflows = 0

theorem Contribution.unavailable {answer : Cluster × K8sApi.ListOutcome}
    (h : ∀ items converted, answer.2 = .ok (items, true) →
      ¬ Converts py observedAt answer.1 items converted) :
    Contribution py observedAt answer [] ⟨answer.1.name, false, 0⟩ where
  name := rfl
  ok_iff := ⟨fun hok => absurd hok (by simp), fun ⟨items, converted, hout, hconv⟩ =>
    absurd hconv (h items converted hout)⟩
  rows_of_ok := fun items converted hout hconv => absurd hconv (h items converted hout)
  nothing_of_not_ok := fun _ => ⟨rfl, rfl⟩

/-- A cluster's part of the collection meets its specification. -/
theorem collectCluster_spec (answer : Cluster × K8sApi.ListOutcome) (h : Handled answer.2) :
    ∃ rows stat, collectCluster py observedAt answer.1 answer.2 = .ok (rows, stat) ∧
      Contribution py observedAt answer rows stat := by
  obtain ⟨cluster, outcome⟩ := answer
  match outcome with
  -- a handled error, like a truncated listing, makes the cluster unavailable
  | .error e =>
      refine ⟨[], ⟨cluster.name, false, 0⟩, if_pos (h e rfl), ?_⟩
      exact Contribution.unavailable py observedAt fun items converted hout => by simp at hout
  | .ok (items, false) =>
      refine ⟨[], ⟨cluster.name, false, 0⟩, rfl, ?_⟩
      exact Contribution.unavailable py observedAt fun items converted hout => by simp at hout
  | .ok (items, true) =>
      cases hconv : convertItems py cluster.name observedAt 0 items with
      | error e =>
          refine ⟨[], ⟨cluster.name, false, 0⟩, by simp only [collectCluster, hconv], ?_⟩
          apply Contribution.unavailable
          intro items' converted hout hc
          have hitems : items = items' := (Prod.mk.inj (Except.ok.inj hout)).1
          rw [← hitems] at hc
          rw [(convertItems_eq_ok_iff py observedAt cluster 0 items converted).mpr hc] at hconv
          exact absurd hconv (by simp)
      | ok rows =>
          have hc := (convertItems_eq_ok_iff py observedAt cluster 0 items rows).mp hconv
          refine ⟨rows, ⟨cluster.name, true, rows.length⟩, by simp only [collectCluster, hconv], ?_⟩
          exact {
            name := rfl
            ok_iff := ⟨fun _ => ⟨items, rows, rfl, hc⟩, fun _ => rfl⟩
            rows_of_ok := fun items' converted hout hc' => by
              have hitems : items = items' := (Prod.mk.inj (Except.ok.inj hout)).1
              rw [← hitems] at hc' ⊢
              exact ⟨hc.unique py observedAt hc', hc.length_eq.symm⟩
            nothing_of_not_ok := fun hok => absurd hok (by simp) }

/-- The specification leaves no freedom. -/
theorem Contribution.unique {answer : Cluster × K8sApi.ListOutcome}
    {rows rows' : List SnapshotRow} {stat stat' : ClusterStat}
    (h : Contribution py observedAt answer rows stat)
    (h' : Contribution py observedAt answer rows' stat') : rows = rows' ∧ stat = stat' := by
  obtain ⟨name, ok, workflows⟩ := stat
  obtain ⟨name', ok', workflows'⟩ := stat'
  have hname : name = name' := h.name.trans h'.name.symm
  have hok : ok = ok' := Bool.eq_iff_iff.mpr (h.ok_iff.trans h'.ok_iff.symm)
  subst hname hok
  cases ok with
  | true =>
      obtain ⟨items, converted, hout, hconv⟩ := h.ok_iff.mp rfl
      obtain ⟨hrows, hcount⟩ := h.rows_of_ok items converted hout hconv
      obtain ⟨hrows', hcount'⟩ := h'.rows_of_ok items converted hout hconv
      have hw : workflows = workflows' := hcount.trans hcount'.symm
      rw [hrows, hrows', hw]
      exact ⟨rfl, rfl⟩
  | false =>
      obtain ⟨hrows, hcount⟩ := h.nothing_of_not_ok rfl
      obtain ⟨hrows', hcount'⟩ := h'.nothing_of_not_ok rfl
      have hw : workflows = workflows' := hcount.trans hcount'.symm
      rw [hrows, hrows', hw]
      exact ⟨rfl, rfl⟩

/-! ## All clusters -/

/-- The rows and the entry of each cluster, in configuration order. -/
def Contributions (answers : List (Cluster × K8sApi.ListOutcome))
    (parts : List (List SnapshotRow × ClusterStat)) : Prop :=
  List.Forall₂ (fun answer part => Contribution py observedAt answer part.1 part.2) answers parts

/-- The collection loop appends what each cluster contributes to what it has. -/
theorem foldlM_collectStep (answers : List (Cluster × K8sApi.ListOutcome))
    (h : ∀ a ∈ answers, Handled a.2) :
    ∃ parts, Contributions py observedAt answers parts ∧ ∀ rows stats,
      answers.foldlM (collectStep py observedAt) (rows, stats) =
        .ok (rows ++ parts.flatMap Prod.fst, stats ++ parts.map Prod.snd) := by
  induction answers with
  | nil => exact ⟨[], List.Forall₂.nil, by simp⟩
  | cons a answers ih =>
      obtain ⟨mine, entry, hcollect, hmine⟩ :=
        collectCluster_spec py observedAt a (h a List.mem_cons_self)
      obtain ⟨parts, hparts, hloop⟩ := ih fun b hb => h b (List.mem_cons_of_mem _ hb)
      refine ⟨(mine, entry) :: parts, List.Forall₂.cons hmine hparts, fun rows stats => ?_⟩
      rw [List.foldlM_cons, collectStep, hcollect, ok_bind]
      dsimp only
      rw [pure_eq_ok, ok_bind, hloop]
      simp [List.append_assoc]

theorem fetchWorkflows_eq_ok (answers : List (Cluster × K8sApi.ListOutcome))
    (h : ∀ a ∈ answers, Handled a.2) :
    ∃ parts, Contributions py observedAt answers parts ∧
      fetchWorkflows py observedAt answers =
        .ok (parts.flatMap Prod.fst, parts.map Prod.snd) := by
  obtain ⟨parts, hparts, hloop⟩ := foldlM_collectStep py observedAt answers h
  exact ⟨parts, hparts, hloop [] []⟩

theorem Contributions.getElem? {answers : List (Cluster × K8sApi.ListOutcome)}
    {parts : List (List SnapshotRow × ClusterStat)} (h : Contributions py observedAt answers parts)
    (i : Nat) :
    answers[i]? = none ∧ parts[i]? = none ∨
      ∃ a part, answers[i]? = some a ∧ parts[i]? = some part ∧
        Contribution py observedAt a part.1 part.2 := by
  induction h generalizing i with
  | nil => exact Or.inl ⟨rfl, rfl⟩
  | @cons a part answers parts ha _ ih =>
      cases i with
      | zero => exact Or.inr ⟨a, part, rfl, rfl, ha⟩
      | succ i => exact ih i

/-- Collection returns one contribution per cluster, all of a cluster's rows or none of them, and
    each one depends only on the answer of that cluster. -/
theorem fetchWorkflows_isolated (answers : List (Cluster × K8sApi.ListOutcome))
    (h : ∀ a ∈ answers, Handled a.2) :
    ∃ parts, Contributions py observedAt answers parts ∧
      fetchWorkflows py observedAt answers = .ok (parts.flatMap Prod.fst, parts.map Prod.snd) ∧
      ∀ answers' : List (Cluster × K8sApi.ListOutcome), (∀ a ∈ answers', Handled a.2) →
        answers'.map Prod.fst = answers.map Prod.fst →
        ∃ parts', Contributions py observedAt answers' parts' ∧
          fetchWorkflows py observedAt answers' =
            .ok (parts'.flatMap Prod.fst, parts'.map Prod.snd) ∧
          ∀ i : Nat, answers'[i]? = answers[i]? → parts'[i]? = parts[i]? := by
  obtain ⟨parts, hparts, hfetch⟩ := fetchWorkflows_eq_ok py observedAt answers h
  refine ⟨parts, hparts, hfetch, fun answers' h' _ => ?_⟩
  obtain ⟨parts', hparts', hfetch'⟩ := fetchWorkflows_eq_ok py observedAt answers' h'
  refine ⟨parts', hparts', hfetch', fun i hi => ?_⟩
  -- the parts of the two runs are compared place by place
  rcases hparts.getElem? py observedAt i with ⟨hnone, hpart⟩ | ⟨a, part, ha, hpart, hc⟩
  · rcases hparts'.getElem? py observedAt i with ⟨_, hpart'⟩ | ⟨a', _, ha', _, _⟩
    · rw [hpart, hpart']
    · rw [hi, hnone] at ha'
      exact absurd ha' (by simp)
  · rcases hparts'.getElem? py observedAt i with ⟨hnone', _⟩ | ⟨a', part', ha', hpart', hc'⟩
    · rw [hi, ha] at hnone'
      exact absurd hnone' (by simp)
    · rw [hi, ha, Option.some.injEq] at ha'
      subst ha'
      obtain ⟨hrows, hstat⟩ := hc'.unique py observedAt hc
      rw [hpart, hpart', Prod.ext hrows hstat]

/-- Three clusters: one answers in full, one partly, one with a malformed response. -/
def sampleAnswers : List (Cluster × K8sApi.ListOutcome) :=
  [(⟨"alpha", some "https://alpha", none⟩,
      .ok ([Reference.workflow "u-1" Reference.succeeded], true)),
   (⟨"beta", some "https://beta", none⟩, .ok ([], false)),
   (⟨"gamma", none, some "ci"⟩, raise .kubernetesResponseError "gamma: malformed")]

theorem sampleAnswers_handled : ∀ a ∈ sampleAnswers, Handled a.2 := by
  intro a ha e he
  simp only [sampleAnswers, List.mem_cons, List.not_mem_nil, or_false] at ha
  rcases ha with rfl | rfl | rfl
  · exact absurd he (by simp)
  · exact absurd he (by simp)
  · rw [← Except.error.inj he]

/-- Three clusters, of which only the first one answers in full. -/
theorem fetchWorkflows_isolated_sample :
    ∃ parts, Contributions Reference.platform "2026-01-01T00:00:00Z" sampleAnswers parts ∧
      fetchWorkflows Reference.platform "2026-01-01T00:00:00Z" sampleAnswers =
        .ok (parts.flatMap Prod.fst, parts.map Prod.snd) ∧
      ∀ answers' : List (Cluster × K8sApi.ListOutcome), (∀ a ∈ answers', Handled a.2) →
        answers'.map Prod.fst = sampleAnswers.map Prod.fst →
        ∃ parts', Contributions Reference.platform "2026-01-01T00:00:00Z" answers' parts' ∧
          fetchWorkflows Reference.platform "2026-01-01T00:00:00Z" answers' =
            .ok (parts'.flatMap Prod.fst, parts'.map Prod.snd) ∧
          ∀ i : Nat, answers'[i]? = sampleAnswers[i]? → parts'[i]? = parts[i]? :=
  fetchWorkflows_isolated Reference.platform "2026-01-01T00:00:00Z" sampleAnswers
    sampleAnswers_handled

end ArgoExporter.Workflows
