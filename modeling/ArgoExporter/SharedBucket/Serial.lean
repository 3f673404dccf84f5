/-
  ArgoExporter.SharedBucket.Serial

  One exporter under each prefix.  However the requests of their cycles mix,
  the bucket and the ends of the cycles are those of whole cycles run one
  after another, in any order that keeps the order of each exporter.
-/

import ArgoExporter.SharedBucket

namespace ArgoExporter.SharedBucket

open ArgoExporter.Lib.Regions
open ArgoExporter.Py
open ArgoExporter.S3io
open ArgoExporter.Main

variable {Bytes : Type} (py : Platform Bytes) {pfx : String}

/-! ## A cycle in steps -/

/-- One `_run_cycle` under a prefix. -/
structure OneCycle (pfx : String) where
  cfg : Config
  under : SamePrefix cfg.destPrefix pfx
  inputs : CycleInputs cfg

/-- Its steps: up to the publish phase, three PUTs and the return.  Those after a failure find the
    process idle. -/
def OneCycle.acts (process : ℕ) (c : OneCycle pfx) : List (Act pfx) :=
  .begin process c.cfg c.under c.inputs :: List.replicate 4 (.advance process)

/-- The whole cycle, with nothing in between. -/
def OneCycle.whole (process : ℕ) (c : OneCycle pfx)
    (x : Deployment pfx Bytes × ObjectStore Bytes) : Deployment pfx Bytes × ObjectStore Bytes :=
  let result := runCycle py c.cfg c.inputs x.2
  ({ x.1 with ended := (process, result.1) :: x.1.ended }, result.2)

variable {py}

theorem advance_idle {process : ℕ} {x : Deployment pfx Bytes × ObjectStore Bytes}
    (hidle : x.1.publishing process = none) : Deployment.advance process x = x := by
  rw [Deployment.advance, hidle]

/-- The cycle of an idle process only adds its end. -/
theorem finish_idle {d : Deployment pfx Bytes} {process : ℕ} (hidle : d.publishing process = none)
    (outcome : CycleOutcome) :
    d.finish process outcome = { d with ended := (process, outcome) :: d.ended } := by
  have hnone : Function.update d.publishing process none = d.publishing := by
    rw [← hidle, Function.update_eq_self]
  rw [Deployment.finish, hnone]

theorem finish_assign {d : Deployment pfx Bytes} {process : ℕ}
    (hidle : d.publishing process = none) (todo : Publishing pfx Bytes) (outcome : CycleOutcome) :
    (d.assign process todo).finish process outcome =
      { d with ended := (process, outcome) :: d.ended } := by
  rw [← finish_idle hidle outcome, Deployment.finish, Deployment.finish, Deployment.assign,
    Function.update_idem]

theorem assign_assign (d : Deployment pfx Bytes) (process : ℕ) (todo todo' : Publishing pfx Bytes) :
    (d.assign process todo).assign process todo' = d.assign process todo' := by
  rw [Deployment.assign, Deployment.assign, Deployment.assign, Function.update_idem]

theorem assign_publishing (d : Deployment pfx Bytes) (process : ℕ) (todo : Publishing pfx Bytes) :
    (d.assign process todo).publishing process = some todo :=
  Function.update_self ..

/-- The steps of a publish phase do what `publish` does, given enough of them. -/
theorem advance_publish {d : Deployment pfx Bytes} {process : ℕ}
    (hidle : d.publishing process = none) (cfg : Config) (under : SamePrefix cfg.destPrefix pfx)
    (stats : List Workflows.ClusterStat) (todo : List (Upload Bytes))
    (named : ∀ upload ∈ todo, upload.name ∈ publicationObjects) (published : List String)
    (store : ObjectStore Bytes) {n : ℕ} (hn : todo.length < n) :
    (Deployment.advance process)^[n]
        (d.assign process ⟨cfg, under, stats, published, todo, named⟩, store) =
      let result := afterPublish cfg stats
        (publish (objectKey cfg.destPrefix) store published todo)
      ({ d with ended := (process, result.1) :: d.ended }, result.2) := by
  induction todo generalizing n published store with
  | nil =>
      obtain ⟨m, rfl⟩ := Nat.exists_eq_succ_of_ne_zero (Nat.ne_of_gt hn)
      rw [Function.iterate_succ_apply, Deployment.advance, assign_publishing]
      dsimp only
      rw [finish_assign hidle]
      exact Function.iterate_fixed (advance_idle hidle) m
  | cons upload todo ih =>
      obtain ⟨m, rfl⟩ := Nat.exists_eq_succ_of_ne_zero (Nat.ne_of_gt (Nat.zero_lt_of_lt hn))
      have hm : todo.length < m := Nat.lt_of_succ_lt_succ hn
      rw [Function.iterate_succ_apply, Deployment.advance, assign_publishing, publish]
      dsimp only
      rcases uploadBytes store upload.outcome (objectKey cfg.destPrefix upload.name) upload.data
        with ⟨_ | _, store'⟩
      -- a failed PUT leaves the process idle
      · dsimp only
        rw [finish_assign hidle]
        exact Function.iterate_fixed (advance_idle hidle) m
      · dsimp only
        rw [assign_assign]
        exact ih _ (published ++ [upload.name]) store' hm

/-- Undisturbed, the steps are `_run_cycle`. -/
theorem acts_alone {d : Deployment pfx Bytes} {process : ℕ} (hidle : d.publishing process = none)
    (c : OneCycle pfx) (store : ObjectStore Bytes) :
    (c.acts process).foldl (fun x act => perform py act x) (d, store) =
      c.whole py process (d, store) := by
  have hsteps : (c.acts process).foldl (fun x act => perform py act x) (d, store) =
      (Deployment.advance process)^[4] (d.begin py store process c.cfg c.under c.inputs, store) := rfl
  rw [hsteps, OneCycle.whole, runCycle, Deployment.begin, hidle]
  dsimp only
  rcases prepare py c.cfg c.inputs.now c.inputs.uuid c.inputs.answers
    (getObject store c.inputs.getRuns (objectKey c.cfg.destPrefix "runs.parquet"))
    with stats | ⟨e, phase, stats⟩ | ⟨payloads, stats⟩
  · dsimp only
    rw [finish_idle hidle]
    exact Function.iterate_fixed (advance_idle hidle) 4
  · dsimp only
    rw [finish_idle hidle]
    exact Function.iterate_fixed (advance_idle hidle) 4
  · exact advance_publish hidle c.cfg c.under stats (uploads c.inputs payloads)
      (uploads_named c.inputs payloads) [] store (by simp [uploads])

/-! ## Interleaved cycles -/

section Serial

variable {ι : Type*} {pfx : ι → String}

/-- Whole cycles of the deployments. -/
def wholeIn (py : Platform Bytes) (pfx : ι → String) (process : ℕ) (i : ι) (c : OneCycle (pfx i)) :
    Deployment (pfx i) Bytes × ObjectStore Bytes → Deployment (pfx i) Bytes × ObjectStore Bytes :=
  c.whole py process

/-- The steps of an exporter's cycles, with nobody else there. -/
theorem alone_cycles {process : ℕ} {i : ι} {x : Deployment (pfx i) Bytes × ObjectStore Bytes}
    (hidle : x.1.publishing process = none) (cycles : List (OneCycle (pfx i))) :
    alone (performIn py pfx) i (cycles.flatMap (OneCycle.acts process)) x =
      alone (wholeIn py pfx process) i cycles x := by
  induction cycles generalizing x with
  | nil => rfl
  | cons c cycles ih =>
      rw [List.flatMap_cons, alone, List.foldl_append]
      have hcycle : (c.acts process).foldl (fun x act => performIn py pfx i act x) x =
          c.whole py process x := acts_alone hidle c x.2
      refine Eq.trans ?_ (ih (x := c.whole py process x) hidle)
      exact congrArg (alone (performIn py pfx) i (cycles.flatMap (OneCycle.acts process))) hcycle

variable [DecidableEq ι]

/-- Whole cycles of idle exporters, one after another, in steps. -/
theorem run_cycles {process : ℕ} {bucket : Bucket pfx Bytes}
    (hidle : ∀ i, (bucket.parties i).publishing process = none)
    (order : List (Σ i, OneCycle (pfx i))) :
    run (performIn py pfx) bucket
        (order.flatMap fun c => (c.2.acts process).map (Sigma.mk c.1)) =
      run (wholeIn py pfx process) bucket order := by
  induction order generalizing bucket with
  | nil => rfl
  | cons c order ih =>
      obtain ⟨i, c⟩ := c
      have hblock := run_block (performIn py pfx) bucket i (c.acts process)
      have hcycle : alone (performIn py pfx) i (c.acts process) (bucket.view i) =
          c.whole py process (bucket.view i) := acts_alone (hidle i) c bucket.memory
      rw [hcycle] at hblock
      have hnext : ∀ j, ((step (wholeIn py pfx process) bucket ⟨i, c⟩).parties j).publishing
          process = none := by
        intro j
        by_cases hji : j = i
        · subst hji
          have hself : (step (wholeIn py pfx process) bucket ⟨j, c⟩).parties j =
              (c.whole py process (bucket.view j)).1 := Function.update_self ..
          rw [hself]
          exact hidle j
        · have hother : (step (wholeIn py pfx process) bucket ⟨i, c⟩).parties j =
              bucket.parties j := Function.update_of_ne hji ..
          rw [hother]
          exact hidle j
      rw [List.flatMap_cons, run, List.foldl_append]
      change run _ (run _ _ _) _ = _
      rw [hblock]
      exact ih hnext

/-- One exporter under each of several prefixes that differ once normalized: however the requests
    of their cycles mix, failed cycles included, the bucket and the ends of the cycles are those
    of whole cycles one after another, in any order that keeps the order of each exporter; and
    each exporter's are those of its own cycles with the bucket to itself. -/
theorem interleaved_cycles_serialize
    (hdistinct : Pairwise fun i j => ¬ SamePrefix (pfx i) (pfx j)) {process : ℕ}
    {bucket : Bucket pfx Bytes} (hidle : ∀ i, (bucket.parties i).publishing process = none)
    {acts : List (Σ i, Act (pfx i))} {order : List (Σ i, OneCycle (pfx i))}
    (hacts : ∀ i, own i acts = (own i order).flatMap (OneCycle.acts process)) :
    let after := run (performIn py pfx) bucket acts
    after = run (wholeIn py pfx process) bucket order ∧
      ∀ i, let apart := alone (wholeIn py pfx process) i (own i order) (bucket.view i)
        after.parties i = apart.1 ∧ ∀ name ∈ publicationObjects,
          after.memory (objectKey (pfx i) name) = apart.2 (objectKey (pfx i) name) := by
  have hdisjoint := regions_disjoint hdistinct
  refine ⟨?_, fun i => ?_⟩
  · rw [← run_cycles hidle order]
    refine run_eq_of_own hdisjoint (performIn_confined acts) (performIn_confined _) (fun i => ?_)
      bucket
    rw [hacts i, own_flatMap (fun i c => OneCycle.acts process c) i order]
  · have halike : Alike (region (pfx i)) ((run (performIn py pfx) bucket acts).view i) _ :=
      run_alike hdisjoint (performIn_confined acts) bucket i (Alike.refl (bucket.view i))
    rw [hacts i, alone_cycles (hidle i)] at halike
    exact ⟨halike.1, fun name hname => halike.2 (objectKey_mem rfl hname)⟩

end Serial

def nestedCycle (inner : Bool) : OneCycle (nestedPrefix inner) :=
  ⟨nestedConfig inner, rfl, nestedInputs inner⟩

/-- Two cycles, taking turns. -/
def takingTurns : List (Σ inner, Act (nestedPrefix inner)) :=
  (((nestedCycle true).acts 0).zip ((nestedCycle false).acts 0)).flatMap fun steps =>
    [⟨true, steps.1⟩, ⟨false, steps.2⟩]

/-- Two cycles that take turns end as if one had run after the other. -/
theorem interleaved_cycles_serialize_nested :
    let after := run (performIn Reference.platform nestedPrefix) emptyBucket takingTurns
    let order := [⟨true, nestedCycle true⟩, ⟨false, nestedCycle false⟩]
    after = run (wholeIn Reference.platform nestedPrefix 0) emptyBucket order ∧
      ∀ i,
        let apart :=
          alone (wholeIn Reference.platform nestedPrefix 0) i (own i order) (emptyBucket.view i)
        after.parties i = apart.1 ∧ ∀ name ∈ publicationObjects,
          after.memory (objectKey (nestedPrefix i) name) =
            apart.2 (objectKey (nestedPrefix i) name) :=
  interleaved_cycles_serialize nestedPrefix_distinct (fun _ => rfl) fun i => by cases i <;> rfl

end ArgoExporter.SharedBucket
