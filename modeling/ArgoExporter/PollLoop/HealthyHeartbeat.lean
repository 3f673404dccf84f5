/-
  ArgoExporter.PollLoop.HealthyHeartbeat

  What a 200 of `/health` says about the published sidecar.  Health is the age
  of the last published cycle, and the stored sidecar is of that cycle or of a
  later one, so a healthy exporter's heartbeat is at most two poll intervals
  and a cycle old.
-/

import ArgoExporter.PollLoop.Freshness
import ArgoExporter.PollLoop.Health

namespace ArgoExporter.Main

open ArgoExporter.Lib
open ArgoExporter.Py
open ArgoExporter.S3io
open ArgoExporter.Health

variable {Bytes : Type} {py : Platform Bytes} {cfg : Config}

/-! ## The marker along a run -/

/-- The stored sidecar was made by a cycle that started at `now`. -/
def MarkedBy (py : Platform Bytes) (cfg : Config) (store : ObjectStore Bytes) (now : Stamp) : Prop :=
  ∃ data uuid stats workflows runs, store (objectKey cfg.destPrefix "meta.json") = some data ∧
    py.jsonLoads data = .ok (sidecar cfg now uuid stats workflows runs)

/-- A publication changes an object only to what it uploads under its key. -/
theorem publish_object (key : String → String) (store : ObjectStore Bytes) (published : List String)
    (uploads : List (Upload Bytes)) (k : String) :
    (publish key store published uploads).2 k = store k ∨
      ∃ u ∈ uploads, key u.name = k ∧ (publish key store published uploads).2 k = some u.data := by
  induction uploads generalizing store published with
  | nil => exact Or.inl rfl
  | cons u uploads ih =>
      have hput : (uploadBytes store u.outcome (key u.name) u.data).2 k = store k ∨
          key u.name = k ∧ (uploadBytes store u.outcome (key u.name) u.data).2 k = some u.data := by
        by_cases hk : key u.name = k
        · subst hk
          rw [uploadBytes_self]
          cases u.outcome.tookEffect
          · exact Or.inl rfl
          · exact Or.inr ⟨rfl, rfl⟩
        · exact Or.inl (uploadBytes_ne _ _ _ (Ne.symm hk))
      rw [publish]
      rcases hresult : uploadBytes store u.outcome (key u.name) u.data with ⟨result, store'⟩
      rw [hresult] at hput
      cases result with
      | ok _ =>
          -- later uploads change what the first one left
          rcases ih store' (published ++ [u.name]) with hsame | ⟨v, hv, hk, hdata⟩
          · rcases hput with hput | ⟨hk, hput⟩
            · exact Or.inl (hsame.trans hput)
            · exact Or.inr ⟨u, List.mem_cons_self, hk, hsame.trans hput⟩
          · exact Or.inr ⟨v, List.mem_cons_of_mem _ hv, hk, hdata⟩
      | error e =>
          rcases hput with hput | ⟨hk, hput⟩
          · exact Or.inl hput
          · exact Or.inr ⟨u, List.mem_cons_self, hk, hput⟩

/-- A cycle leaves the marker as it was or puts its own. -/
theorem markedBy_runCycle (hjson : JsonFaithful py) (inputs : CycleInputs cfg)
    (store : ObjectStore Bytes) :
    (runCycle py cfg inputs store).2 (objectKey cfg.destPrefix "meta.json") =
        store (objectKey cfg.destPrefix "meta.json") ∨
      MarkedBy py cfg (runCycle py cfg inputs store).2 inputs.now := by
  unfold runCycle
  dsimp only
  cases hprep : prepare py cfg inputs.now inputs.uuid inputs.answers
      (getObject store inputs.getRuns (objectKey cfg.destPrefix "runs.parquet")) with
  | skip stats => exact Or.inl rfl
  | fail e phase stats => exact Or.inl rfl
  | ready payloads stats =>
      dsimp only
      rw [afterPublish_store]
      refine (publish_object _ store [] _ _).imp_right fun ⟨u, hu, hname, hdata⟩ => ?_
      obtain ⟨rows, stored, _, _, _, hcompute⟩ := (prepare_eq_ready_iff py).mp hprep
      obtain ⟨runs, hmeta, _⟩ := compute_meta hjson hcompute
      have hdata' : u.data = payloads.meta := by
        have hmeta := objectKey_injective cfg.destPrefix hname
        simp only [uploads, List.mem_cons, List.not_mem_nil, or_false] at hu
        rcases hu with rfl | rfl | rfl
        · exact absurd (show "workflows.parquet" = "meta.json" from hmeta) (by decide)
        · exact absurd (show "runs.parquet" = "meta.json" from hmeta) (by decide)
        · rfl
      rw [hdata'] at hdata
      exact ⟨payloads.meta, inputs.uuid, stats, rows.length, runs, hdata, hmeta⟩

/-- From a marked store on, every store of a run is marked by that cycle or by one of the run. -/
theorem markedBy_of_mem (hjson : JsonFaithful py) {clock : Rat} {store : ObjectStore Bytes}
    {passes : List (Pass cfg)} {now : Stamp} (h : MarkedBy py cfg store now) :
    ∀ x ∈ runPollLoop py clock store passes, MarkedBy py cfg x.store now ∨
      ∃ y ∈ runPollLoop py clock store passes, MarkedBy py cfg x.store y.pass.inputs.now := by
  induction passes generalizing clock store now with
  | nil => simp [runPollLoop]
  | cons pass passes ih =>
      intro x hx
      rcases markedBy_runCycle hjson pass.inputs store with hsame | hown
      · have hfirst : MarkedBy py cfg (runCycle py cfg pass.inputs store).2 now := by
          obtain ⟨data, uuid, stats, workflows, runs, hdata, hdecode⟩ := h
          exact ⟨data, uuid, stats, workflows, runs, hsame.trans hdata, hdecode⟩
        rcases List.mem_cons.mp hx with rfl | hx
        · exact Or.inl hfirst
        · rcases ih hfirst x hx with hmarked | ⟨y, hy, hmarked⟩
          · exact Or.inl hmarked
          · exact Or.inr ⟨y, List.mem_cons_of_mem _ hy, hmarked⟩
      -- once a cycle put its own marker the older one is out of the picture
      · refine Or.inr ?_
        rcases List.mem_cons.mp hx with rfl | hx
        · exact ⟨_, List.mem_cons_self, hown⟩
        · rcases ih hown x hx with hmarked | ⟨y, hy, hmarked⟩
          · exact ⟨_, List.mem_cons_self, hmarked⟩
          · exact ⟨y, List.mem_cons_of_mem _ hy, hmarked⟩

/-- What follows a pass of a run is the run from its store on. -/
theorem runPollLoop_after {clock : Rat} {store : ObjectStore Bytes} {passes : List (Pass cfg)}
    {before after : List (CompletedPass Bytes cfg)} {c : CompletedPass Bytes cfg}
    (hrun : runPollLoop py clock store passes = before ++ c :: after) :
    ∃ clock' passes', after = runPollLoop py clock' c.store passes' := by
  induction before generalizing clock store passes with
  | nil =>
      cases passes with
      | nil => exact absurd hrun (by simp [runPollLoop])
      | cons pass passes =>
          obtain ⟨hc, hafter⟩ := List.cons.inj hrun
          rw [← hc]
          exact ⟨_, passes, hafter.symm⟩
  | cons b before ih =>
      cases passes with
      | nil => exact absurd hrun (by simp [runPollLoop])
      | cons pass passes => exact ih (List.cons.inj hrun).2

/-- After a published cycle the marker is its own or a later one's. -/
theorem markedBy_since (hjson : JsonFaithful py) {clock : Rat} {store : ObjectStore Bytes}
    {passes : List (Pass cfg)} {before after : List (CompletedPass Bytes cfg)}
    {c : CompletedPass Bytes cfg}
    (hrun : runPollLoop py clock store passes = before ++ c :: after)
    (hc : c.outcome = .published) :
    ∀ x ∈ c :: after, ∃ y ∈ c :: after, MarkedBy py cfg x.store y.pass.inputs.now := by
  have hmark : MarkedBy py cfg c.store c.pass.inputs.now := by
    have hmem : c ∈ runPollLoop py clock store passes := by
      rw [hrun]
      simp
    obtain ⟨earlier, hcycle⟩ := runCycle_of_mem hmem
    have hpublished : (runCycle py cfg c.pass.inputs earlier).1 = .published := by rw [hcycle, hc]
    obtain ⟨data, stats, workflows, runs, hdata, hdecode⟩ :=
      stored_sidecar_of_published hjson hpublished
    rw [hcycle] at hdata
    exact ⟨data, _, stats, workflows, runs, hdata, hdecode⟩
  obtain ⟨clock', passes', rfl⟩ := runPollLoop_after hrun
  intro x hx
  rcases List.mem_cons.mp hx with rfl | hx
  · exact ⟨x, List.mem_cons_self, hmark⟩
  · rcases markedBy_of_mem hjson hmark x hx with hmarked | ⟨y, hy, hmarked⟩
    · exact ⟨c, List.mem_cons_self, hmarked⟩
    · exact ⟨y, List.mem_cons_of_mem _ hy, hmarked⟩

/-! ## The age of a healthy exporter's heartbeat -/

/-- The last pass of the run that has returned by `t`. -/
structure LastReturned (run : List (CompletedPass Bytes cfg)) (t : Rat)
    (x : CompletedPass Bytes cfg) : Prop where
  split : ∃ before after, run = before ++ x :: after ∧ ∀ y ∈ after, t < y.finish
  returned : x.finish ≤ t

/-- A request that answers 200 has seen a success, younger than two poll intervals. -/
theorem exists_success_of_healthy {wall : Rat → Rat} {run : List (CompletedPass Bytes cfg)} {t : Rat}
    (hpoll0 : 0 ≤ cfg.pollIntervalSeconds) (hpoll : cfg.pollIntervalSeconds ≤ 2 ^ 52)
    (h : HealthyAt wall run t) :
    ∃ c ∈ run, c.outcome = .published ∧ c.finish ≤ t ∧
      t - c.finish < (cfg.pollIntervalSeconds : Rat) * 2 := by
  unfold HealthyAt heartbeatAt at h
  cases hlast : lastSuccess run t with
  | none =>
      rw [hlast] at h
      exact absurd h (by simp [HealthState.clears, Heartbeat.reset])
  | some c =>
      rw [hlast] at h
      have hmem := List.mem_of_getLast? hlast
      rw [List.mem_filter, Bool.and_eq_true, isPublished_iff, decide_eq_true_eq] at hmem
      obtain ⟨hrun, hpublished, hfinish⟩ := hmem
      refine ⟨c, hrun, hpublished, hfinish, ?_⟩
      have hyoung : reaches (ageSeconds t c.finish) (cfg.pollIntervalSeconds * 2) = false := h
      by_contra hold
      rw [not_lt] at hold
      have hround := Binary64.intCast_le_round (q := t - c.finish)
        (n := cfg.pollIntervalSeconds * 2) (by omega) (by omega) (by push_cast; exact hold)
      rw [← Bool.not_eq_true, reaches_ageSeconds_iff] at hyoung
      exact hyoung (Or.inr (Or.inl hround))

/-- While `/health` answers 200, the sidecar that the last returned cycle left says of itself that it
    was generated less than two poll intervals, one cycle and a second ago. -/
theorem healthy_bounds_heartbeat (hjson : JsonFaithful py) {clock : Rat} {store : ObjectStore Bytes}
    {passes : List (Pass cfg)} {wall : Rat → Rat} {t bound : Rat} {x : CompletedPass Bytes cfg}
    (hpoll0 : 0 ≤ cfg.pollIntervalSeconds) (hpoll : cfg.pollIntervalSeconds ≤ 2 ^ 52)
    (hcaptures : ∀ completed ∈ runPollLoop py clock store passes, completed.CapturesStart)
    (hbound : ∀ pass ∈ passes, pass.timing.duration ≤ bound)
    (hx : LastReturned (runPollLoop py clock store passes) t x)
    (hhealthy : HealthyAt wall (runPollLoop py clock store passes) t) :
    ∃ data metaJson, ∃ now : Stamp, x.store (objectKey cfg.destPrefix "meta.json") = some data ∧
      py.jsonLoads data = .ok metaJson ∧ metaJson.get "generated_at" = .str now.text ∧
      t - now.secs < (cfg.pollIntervalSeconds : Rat) * 2 + bound + 1 := by
  obtain ⟨c, hc, hpublished, hfinish, hage⟩ := exists_success_of_healthy hpoll0 hpoll hhealthy
  have hduration : c.pass.timing.duration ≤ bound := hbound _ (pass_mem_of_mem hc)
  obtain ⟨before, after, hrun, hlater⟩ := hx.split
  -- the success is the last returned pass or one before it
  obtain ⟨before', after', hsplit, hmem⟩ : ∃ before' after',
      runPollLoop py clock store passes = before' ++ c :: after' ∧ x ∈ c :: after' := by
    rw [hrun] at hc
    rcases List.mem_append.mp hc with hc | hc
    · obtain ⟨u, v, rfl⟩ := List.append_of_mem hc
      exact ⟨u, v ++ x :: after, by rw [hrun]; simp, by simp⟩
    · rcases List.mem_cons.mp hc with rfl | hc
      · exact ⟨before, after, hrun, List.mem_cons_self⟩
      · exact absurd hfinish (not_le.mpr (hlater c hc))
  obtain ⟨y, hy, data, uuid, stats, workflows, runs, hdata, hdecode⟩ :=
    markedBy_since hjson hsplit hpublished x hmem
  have hstart : c.start ≤ y.start := by
    have hapart : (runPollLoop py clock store passes).Pairwise Apart := pairwise_apart hpoll0
    rw [hsplit] at hapart
    rcases List.mem_cons.mp hy with rfl | hy
    · exact le_refl _
    · have hcy := (List.pairwise_cons.mp (List.pairwise_append.mp hapart).2.1).1 y hy
      have hnonneg := c.pass.timing.duration_nonneg
      have hpoll0' : (0 : Rat) ≤ cfg.pollIntervalSeconds := by exact_mod_cast hpoll0
      unfold Apart at hcy
      rw [c.finish_eq] at hcy
      linarith
  have hcaptured : (y.pass.inputs.now.secs : Int) = ⌊y.start⌋ :=
    hcaptures y (by rw [hsplit]; exact List.mem_append_right _ hy)
  refine ⟨data, _, y.pass.inputs.now, hdata, hdecode, rfl, ?_⟩
  have hfloor : y.start < (y.pass.inputs.now.secs : Rat) + 1 := by
    have hlt := Int.lt_floor_add_one y.start
    rw [← hcaptured] at hlt
    exact_mod_cast hlt
  rw [c.finish_eq] at hage
  linarith

/-- Forty seconds into the second cycle the exporter is healthy, with the first one's sidecar. -/
theorem healthy_bounds_heartbeat_reference :
    ∃ data metaJson, ∃ now : Stamp,
      Reference.firstCompleted.store (objectKey Reference.config.destPrefix "meta.json") = some data ∧
      Reference.platform.jsonLoads data = .ok metaJson ∧
      metaJson.get "generated_at" = .str now.text ∧
      (Reference.newYear + 400) - now.secs <
        (Reference.config.pollIntervalSeconds : Rat) * 2 + 60 + 1 := by
  have hfirst := Reference.twoCycles_published Reference.firstCompleted
    (by rw [Reference.twoCycles_eq]; exact List.mem_cons_self)
  have hlater : ∀ y ∈ [Reference.secondCompleted], Reference.newYear + 400 < y.finish := by
    intro y hy
    rw [List.mem_singleton.mp hy, Reference.secondCompleted_finish]
    linarith
  have hreturned : Reference.firstCompleted.finish ≤ Reference.newYear + 400 := by
    rw [Reference.firstCompleted_finish]
    linarith
  have hhealthy : HealthyAt (fun t => t) Reference.twoCycles (Reference.newYear + 400) := by
    rw [Reference.twoCycles_eq]
    show HealthyAt _ ([] ++ Reference.firstCompleted :: [Reference.secondCompleted]) _
    refine (healthyAt_iff hfirst hreturned fun y hy _ => hlater y hy).mpr ?_
    have hinterval : Reference.config.pollIntervalSeconds * 2 = 600 := rfl
    rw [hinterval]
    refine not_reaches_before (by decide) (by decide) hreturned ?_
    rw [Reference.firstCompleted_finish]
    push_cast
    linarith
  exact healthy_bounds_heartbeat Reference.jsonFaithful (by decide) (by decide)
    Reference.twoCycles_captures Reference.twoCycles_duration
    ⟨⟨[], _, Reference.twoCycles_eq, hlater⟩, hreturned⟩ hhealthy

end ArgoExporter.Main
