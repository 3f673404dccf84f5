/-
  ArgoExporter.PollLoop.Progress

  What the poll loop gets done.  No cycle makes a readable ledger unreadable,
  however it ends, so every cycle that collects something and whose requests are
  served is published, whatever became of the cycles before it.
-/

import ArgoExporter.Main.LedgerHistory
import ArgoExporter.PollLoop

namespace ArgoExporter.Main

open ArgoExporter.Py
open ArgoExporter.ParquetIo
open ArgoExporter.S3io
open ArgoExporter.Workflows

variable {Bytes : Type} (py : Platform Bytes)

/-- A cycle with a complete listing, rows that fit, a cutoff, and a ledger request that is served. -/
structure Collectable (cfg : Config) (inputs : CycleInputs cfg) : Prop where
  getRuns : inputs.getRuns = .served
  collected : ∃ rows stats, fetchWorkflows py inputs.now.text inputs.answers.entries =
      .ok (rows, stats) ∧ stats.any ClusterStat.ok = true ∧
    ∀ row ∈ rows, Record.Fits workflowsSchema row.toRecord
  cutoff : ∃ boundary, Ledger.cutoff py cfg.runRetentionDays inputs.now.text = .ok boundary

variable {py} {cfg : Config} {store : ObjectStore Bytes}

/-! ## One cycle -/

/-- On a readable ledger a cycle that collects something gets to its publish phase. -/
theorem ready_of_readable (hpq : ParquetFaithful py) (hjson : JsonFaithful py)
    (hcfg : cfg.Accepted) (hstore : Readable py cfg store) {inputs : CycleInputs cfg}
    (h : Collectable py cfg inputs) :
    ∃ payloads stats, prepare py cfg inputs.now inputs.uuid inputs.answers
      (getObject store inputs.getRuns (objectKey cfg.destPrefix "runs.parquet")) =
        .ready payloads stats := by
  obtain ⟨rows, stats, hfetch, hany, hfits⟩ := h.collected
  obtain ⟨boundary, hcut⟩ := h.cutoff
  obtain ⟨payloads, hprep⟩ := prepare_of_readable hpq hjson hcfg hstore h.getRuns hfetch hany hfits
    hcut
  exact ⟨payloads, stats, hprep⟩

/-- However a cycle ends, it leaves a readable ledger readable. -/
theorem readable_runCycle (hpq : ParquetFaithful py) (hjson : JsonFaithful py)
    (h : Readable py cfg store) (inputs : CycleInputs cfg) :
    Readable py cfg (runCycle py cfg inputs store).2 := by
  cases hvisit : visit? py inputs store with
  | none =>
      rw [Readable, runs_of_visit_none hvisit]
      exact h
  | some visit =>
      obtain ⟨_, _, data, _, _, _, hruns, hdata⟩ := runs_of_visit_some hpq hjson hvisit
      rw [Readable, hruns]
      exact ⟨_, hdata⟩

theorem published_of_readable (hpq : ParquetFaithful py) (hjson : JsonFaithful py)
    (hcfg : cfg.Accepted) (hstore : Readable py cfg store) {inputs : CycleInputs cfg}
    (h : Collectable py cfg inputs) (hserved : inputs.PutsServed) :
    (runCycle py cfg inputs store).1 = .published := by
  obtain ⟨payloads, stats, hprep⟩ := ready_of_readable hpq hjson hcfg hstore h
  rw [runCycle_served hserved hprep]

/-- A published cycle had all of its PUTs served. -/
theorem putsServed_of_published {inputs : CycleInputs cfg}
    (h : (runCycle py cfg inputs store).1 = .published) : inputs.PutsServed := by
  unfold runCycle at h
  dsimp only at h
  cases hprep : prepare py cfg inputs.now inputs.uuid inputs.answers
      (getObject store inputs.getRuns (objectKey cfg.destPrefix "runs.parquet")) with
  | skip stats => simp [hprep] at h
  | fail e phase stats => simp [hprep] at h
  | ready payloads stats =>
      rw [hprep] at h
      -- a PUT that fails ends the publish phase with its exception
      cases hworkflows : inputs.putWorkflows with
      | failed e landed => simp [uploads, publish, hworkflows, uploadBytes, afterPublish] at h
      | served =>
          cases hruns : inputs.putRuns with
          | failed e landed =>
              simp [uploads, publish, hworkflows, hruns, uploadBytes, afterPublish] at h
          | served =>
              cases hmeta : inputs.putMeta with
              | failed e landed =>
                  simp [uploads, publish, hworkflows, hruns, hmeta, uploadBytes, afterPublish] at h
              | served => exact ⟨hworkflows, hruns, hmeta⟩

/-! ## Whole runs -/

/-- In a run from a readable ledger every cycle that collects something and whose requests are served
    is published. -/
theorem published_of_collectable (hpq : ParquetFaithful py) (hjson : JsonFaithful py)
    (hcfg : cfg.Accepted) {clock : Rat} (hstore : Readable py cfg store)
    {passes : List (Pass cfg)} :
    ∀ completed ∈ runPollLoop py clock store passes, Collectable py cfg completed.pass.inputs →
      completed.pass.inputs.PutsServed → completed.outcome = .published := by
  -- the ledger stays readable from pass to pass
  induction passes generalizing clock store with
  | nil => simp [runPollLoop]
  | cons pass passes ih =>
      rw [runPollLoop, List.forall_mem_cons]
      exact ⟨fun h hserved => published_of_readable hpq hjson hcfg hstore h hserved,
        ih (readable_runCycle hpq hjson hstore pass.inputs)⟩

end ArgoExporter.Main

namespace ArgoExporter.Reference

open ArgoExporter.Py
open ArgoExporter.S3io
open ArgoExporter.Main

/-! ## A run of two cycles -/

theorem collectable_cycle (n : Nat) (c : Char) (putMeta : PutOutcome)
    (hn : n < 1000000 := by decide) (hc : MetaSchema.hexClass c = true := by decide) :
    Collectable platform config (cycle n c putMeta hn hc) where
  getRuns := rfl
  collected := ⟨_, _, fetch_answers _, rfl, rows_fit _⟩
  cutoff := ⟨_, cutoff_instant n hn⟩

/-- A pass whose cycle starts `n` seconds into 2026 and has its PUTs served. -/
def pass (n : Nat) (c : Char) (timing : Timing config.clusters) (hn : n < 1000000 := by decide)
    (hc : MetaSchema.hexClass c = true := by decide) : Pass config :=
  ⟨cycle n c .served hn hc, timing⟩

/-- A minute-long cycle that lists both clusters at once. -/
def prompt : Timing config.clusters where
  duration := 60
  duration_nonneg := by norm_num
  listed := [0, 0]
  length_eq := rfl
  serial := by simp
  within := by norm_num

/-- A minute-long cycle whose second cluster is listed at its end. -/
def late : Timing config.clusters where
  duration := 60
  duration_nonneg := by norm_num
  listed := [0, 60]
  length_eq := rfl
  serial := by simp
  within := by norm_num

/-- The second cluster is listed early in one cycle and late in the next one. -/
def earlyThenLate : List (Pass config) := [pass 0 'a' prompt, pass 360 'b' late]

/-- The start of 2026. -/
def newYear : Rat := 63902822400

/-- The run of these passes on an empty store. -/
def twoCycles : List (CompletedPass TaggedBytes config) :=
  runPollLoop platform newYear emptyStore earlyThenLate

def firstCompleted : CompletedPass TaggedBytes config :=
  let result := runCycle platform config (cycle 0 'a' .served) emptyStore
  ⟨newYear, pass 0 'a' prompt, result.1, result.2⟩

def secondCompleted : CompletedPass TaggedBytes config :=
  let result := runCycle platform config (cycle 360 'b' .served) firstCompleted.store
  ⟨newYear + 60 + 300, pass 360 'b' late, result.1, result.2⟩

theorem twoCycles_eq : twoCycles = [firstCompleted, secondCompleted] := rfl

theorem twoCycles_consecutive : Consecutive twoCycles firstCompleted secondCompleted :=
  twoCycles_eq ▸ List.infix_refl _

theorem twoCycles_published : ∀ completed ∈ twoCycles, completed.outcome = .published := by
  intro completed hcompleted
  have hpass := pass_mem_of_mem hcompleted
  obtain ⟨hcollects, hserved⟩ : Collectable platform config completed.pass.inputs ∧
      completed.pass.inputs.PutsServed := by
    simp only [earlyThenLate, List.mem_cons, List.not_mem_nil, or_false] at hpass
    rcases hpass with hpass | hpass
    · rw [hpass]
      exact ⟨collectable_cycle 0 'a' .served, rfl, rfl, rfl⟩
    · rw [hpass]
      exact ⟨collectable_cycle 360 'b' .served, rfl, rfl, rfl⟩
  exact published_of_collectable parquetFaithful jsonFaithful (Config.load_accepted config_loaded)
    (readable_of_absent parquetFaithful rfl) completed hcompleted hcollects hserved

theorem twoCycles_duration : ∀ p ∈ earlyThenLate, p.timing.duration ≤ 60 := by
  intro p hp
  simp only [earlyThenLate, List.mem_cons, List.not_mem_nil, or_false] at hp
  rcases hp with rfl | rfl <;> exact le_refl _

theorem firstCompleted_finish : firstCompleted.finish = newYear + 60 := rfl

theorem secondCompleted_finish : secondCompleted.finish = newYear + 60 + 300 + 60 := rfl

end ArgoExporter.Reference
