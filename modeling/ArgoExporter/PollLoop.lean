/-
  ArgoExporter.PollLoop

  `_run_poll_loop`: serial cycles with the poll interval after each of them.
  Time is in seconds since 0001-01-01 UTC; how long a cycle takes and when in
  it each cluster is listed are inputs.
-/

import ArgoExporter.Lib.SerialSchedule
import ArgoExporter.Main
import Mathlib.Algebra.Order.Ring.Rat
import Mathlib.Data.List.Chain

namespace ArgoExporter.Main

open ArgoExporter.Lib
open ArgoExporter.Py
open ArgoExporter.S3io

/-! ## The loop -/

/-- How long a cycle takes, and when in it the configured clusters are listed, one after another. -/
structure Timing (clusters : List Cluster) where
  duration : Rat
  duration_nonneg : 0 ≤ duration
  listed : List Rat
  length_eq : listed.length = clusters.length
  serial : listed.Pairwise (· ≤ ·)
  within : ∀ offset ∈ listed, 0 ≤ offset ∧ offset ≤ duration

/-- One pass of the loop: what its cycle meets, and its timing. -/
structure Pass (cfg : Config) where
  inputs : CycleInputs cfg
  timing : Timing cfg.clusters

/-- A pass that was made: when its cycle started, how it ended, and the store it left. -/
structure CompletedPass (Bytes : Type) (cfg : Config) where
  start : Rat
  pass : Pass cfg
  outcome : CycleOutcome
  store : ObjectStore Bytes

variable {Bytes : Type} (py : Platform Bytes)

/-- `_run_poll_loop` from a clock time on, until the stop event is set after these passes.  The
    poll interval follows each cycle, however it ended.  An interval that `Event.wait` refuses ends
    the loop after its first pass; the stop event and the waits are in `PollLoop.Shutdown`. -/
def runPollLoop {cfg : Config} (clock : Rat) (store : ObjectStore Bytes) :
    List (Pass cfg) → List (CompletedPass Bytes cfg)
  | [] => []
  | pass :: passes =>
      let result := runCycle py cfg pass.inputs store
      ⟨clock, pass, result.1, result.2⟩ ::
        runPollLoop (clock + pass.timing.duration + cfg.pollIntervalSeconds) result.2 passes

/-! ## Instants of a pass -/

namespace CompletedPass

variable {cfg : Config} (completed : CompletedPass Bytes cfg)

/-- The time its cycle takes. -/
def slot : Slot Rat := ⟨completed.start, completed.pass.timing.duration⟩

/-- When the cycle returns; a published one has just committed its sidecar. -/
def finish : Rat := completed.slot.finish

/-- When a configured cluster, by its position, is listed. -/
def listedAt (k : Fin cfg.clusters.length) : Rat :=
  completed.start +
    completed.pass.timing.listed.get (k.cast completed.pass.timing.length_eq.symm)

theorem finish_eq : completed.finish = completed.start + completed.pass.timing.duration := rfl

theorem contains_listedAt (k : Fin cfg.clusters.length) :
    completed.slot.Contains (completed.listedAt k) := by
  obtain ⟨hlower, hupper⟩ := completed.pass.timing.within _ (List.get_mem _
    (k.cast completed.pass.timing.length_eq.symm))
  unfold Slot.Contains Slot.finish slot listedAt
  dsimp only
  exact ⟨by linarith, by linarith⟩

end CompletedPass

/-! ## Runs -/

section Runs

variable {py} {cfg : Config} {clock : Rat} {store : ObjectStore Bytes} {passes : List (Pass cfg)}

theorem pass_mem_of_mem {completed : CompletedPass Bytes cfg}
    (h : completed ∈ runPollLoop py clock store passes) : completed.pass ∈ passes := by
  induction passes generalizing clock store with
  | nil => exact absurd h List.not_mem_nil
  | cons pass passes ih =>
      rcases List.mem_cons.mp h with rfl | h
      · exact List.mem_cons_self
      · exact List.mem_cons_of_mem _ (ih h)

/-- What a pass leaves is what its cycle makes of some store. -/
theorem runCycle_of_mem {completed : CompletedPass Bytes cfg}
    (h : completed ∈ runPollLoop py clock store passes) :
    ∃ before, runCycle py cfg completed.pass.inputs before =
      (completed.outcome, completed.store) := by
  induction passes generalizing clock store with
  | nil => exact absurd h List.not_mem_nil
  | cons pass passes ih =>
      rcases List.mem_cons.mp h with rfl | h
      · exact ⟨store, rfl⟩
      · exact ih h

/-- Cycles do not overlap: each starts the poll interval after the one before it returned. -/
theorem isChain_runPollLoop :
    (runPollLoop py clock store passes).IsChain fun completed next =>
      Slot.Follows (cfg.pollIntervalSeconds : Rat) completed.slot next.slot := by
  induction passes generalizing clock store with
  | nil => exact .nil
  | cons pass passes ih =>
      cases passes with
      | nil => exact .singleton _
      | cons next passes => exact .cons_cons rfl ih

/-- Two passes of a run, one right after the other. -/
def Consecutive (run : List (CompletedPass Bytes cfg)) (completed next : CompletedPass Bytes cfg) :
    Prop :=
  [completed, next] <:+: run

variable {completed next : CompletedPass Bytes cfg}

theorem Consecutive.mem {run : List (CompletedPass Bytes cfg)} (h : Consecutive run completed next) :
    completed ∈ run ∧ next ∈ run :=
  ⟨h.subset (by simp), h.subset (by simp)⟩

theorem Consecutive.follows (h : Consecutive (runPollLoop py clock store passes) completed next) :
    Slot.Follows (cfg.pollIntervalSeconds : Rat) completed.slot next.slot := by
  have hchain := isChain_runPollLoop.infix h
  exact hchain.rel

end Runs

end ArgoExporter.Main
