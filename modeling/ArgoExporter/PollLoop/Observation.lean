/-
  ArgoExporter.PollLoop.Observation

  Which finished runs the poll loop observes before the cluster deletes them.
  The clusters of a cycle are listed one after another, so a cluster may be
  listed early in one cycle and late in the next.
-/

import ArgoExporter.PollLoop.Progress

namespace ArgoExporter.Main

open ArgoExporter.Lib
open ArgoExporter.Py
open ArgoExporter.S3io

variable {Bytes : Type} {py : Platform Bytes} {cfg : Config} {clock : Rat}
  {store : ObjectStore Bytes} {passes : List (Pass cfg)} {cMax : Rat}

/-- Between two listings of a cluster pass at most two cycles and one poll interval. -/
theorem listing_gap_le (hduration : ∀ pass ∈ passes, pass.timing.duration ≤ cMax)
    {completed next : CompletedPass Bytes cfg}
    (h : Consecutive (runPollLoop py clock store passes) completed next)
    (k : Fin cfg.clusters.length) :
    next.listedAt k - completed.listedAt k ≤ 2 * cMax + cfg.pollIntervalSeconds :=
  Slot.sub_le_of_contains h.follows (hduration _ (pass_mem_of_mem h.mem.1))
    (hduration _ (pass_mem_of_mem h.mem.2)) (completed.contains_listedAt k)
    (next.contains_listedAt k)

/-- No run finishes and is deleted between two listings of its cluster, if a finished run outlives
    two cycles and one poll interval. -/
theorem no_finished_run_missed (hduration : ∀ pass ∈ passes, pass.timing.duration ≤ cMax)
    {ttl : Rat} (hbound : 2 * cMax + cfg.pollIntervalSeconds ≤ ttl)
    {completed next : CompletedPass Bytes cfg}
    (h : Consecutive (runPollLoop py clock store passes) completed next)
    (k : Fin cfg.clusters.length) (f : Rat) :
    ¬ Missed ttl (completed.listedAt k) (next.listedAt k) f := by
  intro hmissed
  have hgap := listing_gap_le hduration h k
  have hlt := exists_missed_iff.mp ⟨f, hmissed⟩
  exact absurd hlt (not_lt.mpr (le_trans hgap hbound))

end ArgoExporter.Main

namespace ArgoExporter.Reference

/-! ## Listings of the reference run -/

/-- The second cluster, by its position. -/
def betaIndex : Fin config.clusters.length := ⟨1, by decide⟩

theorem firstCompleted_listedAt : firstCompleted.listedAt betaIndex = newYear + 0 := rfl

theorem secondCompleted_listedAt :
    secondCompleted.listedAt betaIndex = newYear + 60 + 300 + 60 := rfl

end ArgoExporter.Reference

namespace ArgoExporter.Main

open ArgoExporter.Lib

/-- The listings of the second cluster in the two reference cycles, with a bound that just fits. -/
theorem no_finished_run_missed_reference :
    ¬ Missed 420 (Reference.firstCompleted.listedAt Reference.betaIndex)
      (Reference.secondCompleted.listedAt Reference.betaIndex) (Reference.newYear + 1) :=
  no_finished_run_missed Reference.twoCycles_duration (by norm_num [Reference.config])
    Reference.twoCycles_consecutive Reference.betaIndex _

/-- Every cycle is published within a minute and `60 + 300 < 400`, yet a run that finishes right
    after an early listing is deleted before the late one. -/
theorem finished_run_may_be_missed :
    (∀ completed ∈ Reference.twoCycles, completed.outcome = .published) ∧
    (∀ pass ∈ Reference.earlyThenLate, pass.timing.duration ≤ 60) ∧
    (60 : Rat) + Reference.config.pollIntervalSeconds < 400 ∧
    Consecutive Reference.twoCycles Reference.firstCompleted Reference.secondCompleted ∧
    Missed 400 (Reference.firstCompleted.listedAt Reference.betaIndex)
      (Reference.secondCompleted.listedAt Reference.betaIndex) (Reference.newYear + 1) := by
  refine ⟨Reference.twoCycles_published, Reference.twoCycles_duration,
    by norm_num [Reference.config], Reference.twoCycles_consecutive, ?_⟩
  rw [Reference.firstCompleted_listedAt, Reference.secondCompleted_listedAt]
  exact ⟨by linarith, by linarith⟩

end ArgoExporter.Main
