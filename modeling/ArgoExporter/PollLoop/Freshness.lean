/-
  ArgoExporter.PollLoop.Freshness

  The age of the committed heartbeat while the poll loop keeps running.  It is
  taken at the start of a cycle and stays stored until the next cycle commits,
  so it grows past the longest cycle and the poll interval.
-/

import ArgoExporter.Consumer.Freshness
import ArgoExporter.PollLoop.Progress
import ArgoExporter.Py.Isoformat

namespace ArgoExporter.Main

open ArgoExporter.Lib
open ArgoExporter.Py
open ArgoExporter.S3io
open ArgoExporter.Workflows
open ArgoExporter.Consumer

variable {Bytes : Type}

/-! ## Instants -/

/-- An aware datetime that denotes `q` seconds since 0001-01-01 UTC. -/
def Denotes (now : DateTime) (q : Rat) : Prop :=
  ∃ offset utc, now.utcoffset = some offset ∧ astimezoneUtc now.naive offset = .ok utc ∧
    q = (utc.micros : Rat) / microsPerSecond

/-- `generated_at` is the clock at the start of the cycle, truncated to the second. -/
def CompletedPass.CapturesStart {cfg : Config} (completed : CompletedPass Bytes cfg) : Prop :=
  (completed.pass.inputs.now.secs : Int) = ⌊completed.start⌋

/-- What `is_fresh` says of the stored sidecar. -/
def storedFreshness (py : Platform Bytes) (pfx : String) (store : ObjectStore Bytes)
    (now : DateTime) (maxCycleSeconds : Json) : Option (Except Exc Bool) :=
  (store (objectKey pfx "meta.json")).map fun data => do
    isFresh (← py.jsonLoads data) now maxCycleSeconds

/-! ## The stored sidecar -/

section Stored

variable {py : Platform Bytes} {cfg : Config}

theorem putsServed_of_publish {inputs : CycleInputs cfg} {payloads : Payloads Bytes}
    {key : String → String} {store : ObjectStore Bytes}
    (h : (publish key store [] (uploads inputs payloads)).1 = .ok ()) : inputs.PutsServed := by
  unfold uploads at h
  cases hworkflows : inputs.putWorkflows with
  | failed e landed => simp [publish, uploadBytes, hworkflows] at h
  | served =>
      cases hruns : inputs.putRuns with
      | failed e landed => simp [publish, uploadBytes, hworkflows, hruns] at h
      | served =>
          cases hmeta : inputs.putMeta with
          | failed e landed => simp [publish, uploadBytes, hworkflows, hruns, hmeta] at h
          | served => exact ⟨hworkflows, hruns, hmeta⟩

/-- A published cycle leaves its own sidecar. -/
theorem stored_sidecar_of_published (hjson : JsonFaithful py) {inputs : CycleInputs cfg}
    {store : ObjectStore Bytes} (h : (runCycle py cfg inputs store).1 = .published) :
    ∃ data stats workflows runs,
      (runCycle py cfg inputs store).2 (objectKey cfg.destPrefix "meta.json") = some data ∧
      py.jsonLoads data = .ok (sidecar cfg inputs.now inputs.uuid stats workflows runs) := by
  unfold runCycle at h ⊢
  dsimp only at h ⊢
  cases hprep : prepare py cfg inputs.now inputs.uuid inputs.answers
      (getObject store inputs.getRuns (objectKey cfg.destPrefix "runs.parquet")) with
  | skip stats => simp [hprep] at h
  | fail e phase stats => simp [hprep] at h
  | ready payloads stats =>
      rw [hprep] at h
      dsimp only at h ⊢
      have hserved := putsServed_of_publish (afterPublish_eq_published h)
      obtain ⟨rows, stored, _, _, _, hcompute⟩ := (prepare_eq_ready_iff py).mp hprep
      obtain ⟨runs, hmeta, _⟩ := compute_meta hjson hcompute
      refine ⟨payloads.meta, stats, rows.length, runs, ?_, hmeta⟩
      rw [afterPublish_store, publish_served _ _ hserved]
      exact writePayloads_meta store payloads

end Stored

/-! ## Age and threshold -/

section Age

variable {metaJson : Json} {t : Stamp} {now : DateTime} {offset : Int} {utc : Naive}
  {pollInterval m : Int}

theorem threshold_of_int (hinterval : metaJson.get "poll_interval_seconds" = .int pollInterval)
    (hpoll : 0 < pollInterval) (hm : 0 ≤ m) (hrange : m + pollInterval < 2 ^ 53) :
    freshnessThresholdSeconds metaJson (.int m) =
      .ok (.fin ((m + pollInterval : Int) : Rat)) := by
  rw [threshold_int hinterval hpoll hm]
  exact PyFloat.ofInt_of_lt (by rw [abs_of_nonneg (by omega)]; exact hrange)

theorem threshold_of_float {x : Rat}
    (hinterval : metaJson.get "poll_interval_seconds" = .int pollInterval)
    (hpoll : 0 < pollInterval) (hrange : pollInterval < 2 ^ 53) (hx : 0 ≤ x) :
    freshnessThresholdSeconds metaJson (.float (.fin x)) =
      .ok (PyFloat.ofRat (x + (pollInterval : Rat))) := by
  have hsum := PyFloat.ofInt_of_lt (n := pollInterval)
    (by rw [abs_of_nonneg (le_of_lt hpoll)]; exact hrange)
  rw [threshold_float hinterval hpoll hx, hsum]
  rfl

/-- A bound that `is_fresh` accepts, from `n` seconds on: an integer that keeps the sum of the
    bounds exact, or a finite float. -/
inductive AtLeast (pollInterval n : Int) : Json → Prop where
  | int (m : Int) (hm : n ≤ m) (hrange : m + pollInterval < 2 ^ 53) :
      AtLeast pollInterval n (.int m)
  | float (x : Rat) (hx : n ≤ x) : AtLeast pollInterval n (.float (.fin x))

/-- `threshold` is what the consumer computes for sidecars with this poll interval. -/
def IsThreshold (pollInterval : Int) (maxCycleSeconds : Json) (threshold : PyFloat) : Prop :=
  ∀ metaJson : Json, metaJson.get "poll_interval_seconds" = .int pollInterval →
    freshnessThresholdSeconds metaJson maxCycleSeconds = .ok threshold

/-- A larger bound only raises the threshold. -/
theorem lt_threshold {n : Int} {maxCycleSeconds : Json}
    (hmax : AtLeast pollInterval n maxCycleSeconds) (hpoll : 0 < pollInterval) (hn : 0 ≤ n)
    (hrange : n + pollInterval ≤ 2 ^ 34) {r : Rat} (hr : r < (n + pollInterval : Int)) :
    ∃ threshold, IsThreshold pollInterval maxCycleSeconds threshold ∧
      (PyFloat.fin r).lt threshold = true := by
  cases hmax with
  -- an int threshold is exact
  | int m hm hsum =>
      refine ⟨_, fun _ hinterval => threshold_of_int hinterval hpoll (le_trans hn hm) hsum, ?_⟩
      have hle : ((n + pollInterval : Int) : Rat) ≤ (m + pollInterval : Int) := by
        exact_mod_cast Int.add_le_add_right hm pollInterval
      exact decide_eq_true (lt_of_lt_of_le hr hle)
  -- a float sum is rounded, but not below an integer that a float holds exactly
  | float x hx =>
      have hn' : (0 : Rat) ≤ n := by exact_mod_cast hn
      refine ⟨_, fun _ hinterval =>
        threshold_of_float hinterval hpoll (by omega) (le_trans hn' hx), ?_⟩
      refine PyFloat.lt_ofRat (by omega) (le_trans hrange (by norm_num)) hr ?_
      push_cast
      linarith

/-- An age below an integer of up to 34 bits is below it as a float, too. -/
theorem totalSeconds_lt {generated : Naive} {n : Int} (hn : n ≤ 2 ^ 34)
    (h0 : generated.micros ≤ utc.micros)
    (h : (utc.micros : Int) < generated.micros + n * microsPerSecond) :
    ∃ r < (n : Rat), totalSeconds utc generated = .fin r := by
  have hmicros : (microsPerSecond : Rat) = 1000000 := by norm_num [microsPerSecond]
  have hage : (0 : Rat) ≤ ((utc.micros : Int) - generated.micros : Int) := by
    exact_mod_cast Int.sub_nonneg.mpr (Int.ofNat_le.mpr h0)
  -- ages are whole microseconds, so one strictly below the bound is a microsecond below
  have hbelow : (((utc.micros : Int) - generated.micros : Int) : Rat) + 1 ≤ n * 1000000 := by
    have hint : (utc.micros : Int) - generated.micros + 1 ≤ n * 1000000 := by
      unfold microsPerSecond at h
      omega
    exact_mod_cast hint
  unfold totalSeconds
  rw [hmicros]
  refine PyFloat.ofRat_lt_intCast (div_nonneg hage (by norm_num)) ?_ hn
  rw [div_le_iff₀ (by norm_num)]
  linarith

theorem micros_le_of_secs_le (h : (t.secs : Rat) ≤ (utc.micros : Rat) / microsPerSecond) :
    t.naive.micros ≤ utc.micros := by
  have hpos : (0 : Rat) < microsPerSecond := by norm_num [microsPerSecond]
  rw [le_div_iff₀ hpos] at h
  rw [Ledger.micros_naive]
  exact_mod_cast h

theorem micros_lt_of_secs_lt {n : Int}
    (h : (utc.micros : Rat) / microsPerSecond < (t.secs : Rat) + n) :
    (utc.micros : Int) < t.naive.micros + n * microsPerSecond := by
  have hpos : (0 : Rat) < microsPerSecond := by norm_num [microsPerSecond]
  rw [div_lt_iff₀ hpos, add_mul] at h
  rw [Ledger.micros_naive]
  exact_mod_cast h

end Age

/-! ## Whole runs -/

section Runs

variable {py : Platform Bytes} {cfg : Config} {clock cMax : Rat} {store : ObjectStore Bytes}
  {passes : List (Pass cfg)}

theorem CompletedPass.CapturesStart.secs_eq {completed : CompletedPass Bytes cfg}
    (h : completed.CapturesStart) :
    (completed.pass.inputs.now.secs : Rat) = ⌊completed.start⌋ := by
  exact_mod_cast congrArg (Int.cast : Int → Rat) h

theorem generatedAt_le_finish {completed : CompletedPass Bytes cfg}
    (hcaptures : completed.CapturesStart) :
    (completed.pass.inputs.now.secs : Rat) ≤ completed.finish := by
  have hfloor := Int.floor_le completed.start
  have hstamp := hcaptures.secs_eq
  have hnonneg := completed.pass.timing.duration_nonneg
  unfold CompletedPass.finish Slot.finish CompletedPass.slot
  dsimp only
  linarith

/-- Seconds from a cycle's `generated_at` to any instant before the next commit. -/
theorem heartbeat_age_lt (hduration : ∀ pass ∈ passes, pass.timing.duration ≤ cMax)
    {completed next : CompletedPass Bytes cfg}
    (h : Consecutive (runPollLoop py clock store passes) completed next)
    (hcaptures : completed.CapturesStart) {q : Rat} (hrunning : q < next.finish) :
    q - completed.pass.inputs.now.secs < 2 * cMax + 1 + cfg.pollIntervalSeconds := by
  have hreach := Slot.finish_sub_le h.follows (hduration _ (pass_mem_of_mem h.mem.1))
    (hduration _ (pass_mem_of_mem h.mem.2)) (le_refl _)
  have hfloor := Int.lt_floor_add_one completed.start
  have hstart : completed.slot.start = completed.start := rfl
  unfold CompletedPass.finish at hrunning
  rw [hcaptures.secs_eq]
  rw [hstart] at hreach
  linarith

/-- The stored freshness after a published cycle compares the age of its sidecar with the
    threshold. -/
theorem storedFreshness_of_published (hjson : JsonFaithful py)
    {completed : CompletedPass Bytes cfg} (hmem : completed ∈ runPollLoop py clock store passes)
    (hpublished : completed.outcome = .published) {now : DateTime} {offset : Int} {utc : Naive}
    (hoffset : now.utcoffset = some offset) (hutc : astimezoneUtc now.naive offset = .ok utc)
    {maxCycleSeconds : Json} {threshold : PyFloat}
    (hthreshold : IsThreshold cfg.pollIntervalSeconds maxCycleSeconds threshold) :
    storedFreshness py cfg.destPrefix completed.store now maxCycleSeconds =
      some (.ok ((totalSeconds utc completed.pass.inputs.now.naive).lt threshold)) := by
  obtain ⟨before, hcycle⟩ := runCycle_of_mem hmem
  have houtcome : (runCycle py cfg completed.pass.inputs before).1 = .published := by
    rw [hcycle]
    exact hpublished
  obtain ⟨data, stats, workflows, runs, hdata, hloads⟩ := stored_sidecar_of_published hjson houtcome
  rw [hcycle] at hdata
  dsimp only at hdata
  -- the age the reader computes is the age of the cycle that published
  have hage : freshnessAgeSeconds (sidecar cfg completed.pass.inputs.now
      completed.pass.inputs.uuid stats workflows runs) now =
        .ok (totalSeconds utc completed.pass.inputs.now.naive) :=
    by rw [age_of_stamp (sidecar_generatedAt ..) (Stamp.strptime_text _) hoffset, hutc]; rfl
  rw [storedFreshness, hdata, Option.map_some, hloads, ok_bind, isFresh, hage, ok_bind,
    hthreshold _ (sidecar_pollInterval ..), ok_bind, pure_eq_ok]

/-- While the loop keeps publishing, the stored sidecar is fresh at every instant for a consumer
    whose bound leaves room for two cycles and the truncation of `generated_at`. -/
theorem healthy_exporter_fresh (hjson : JsonFaithful py)
    {environ : Config.Environ} {versionFile : String → Except Exc String}
    (hload : Config.load py environ versionFile = .ok cfg)
    (hpublished : ∀ completed ∈ runPollLoop py clock store passes, completed.outcome = .published)
    (hcaptures : ∀ completed ∈ runPollLoop py clock store passes, completed.CapturesStart)
    (hduration : ∀ pass ∈ passes, pass.timing.duration ≤ cMax) {maxCycleSeconds : Json}
    (hmax : AtLeast cfg.pollIntervalSeconds (⌈2 * cMax⌉ + 1) maxCycleSeconds)
    (hrange : ⌈2 * cMax⌉ + 1 + cfg.pollIntervalSeconds ≤ 2 ^ 34)
    {completed next : CompletedPass Bytes cfg}
    (h : Consecutive (runPollLoop py clock store passes) completed next) {now : DateTime} {q : Rat}
    (hnow : Denotes now q) (hcommitted : completed.finish ≤ q) (hrunning : q < next.finish) :
    storedFreshness py cfg.destPrefix completed.store now maxCycleSeconds = some (.ok true) := by
  obtain ⟨offset, utc, hoffset, hutc, rfl⟩ := hnow
  have hpoll := (Config.load_accepted hload).pollInterval_pos
  have hmem := h.mem.1
  have hnonneg := le_trans completed.pass.timing.duration_nonneg
    (hduration _ (pass_mem_of_mem hmem))
  have hceil : 0 ≤ ⌈2 * cMax⌉ := Int.ceil_nonneg (by linarith)
  -- the next cycle is not done, so at most two cycle lengths have passed since the stamp
  have hage := heartbeat_age_lt hduration h (hcaptures _ hmem) hrunning
  have hstart := generatedAt_le_finish (hcaptures _ hmem)
  have hle := Int.le_ceil (2 * cMax)
  obtain ⟨r, hr, htotal⟩ := totalSeconds_lt hrange
    (micros_le_of_secs_le (le_trans hstart hcommitted))
    (micros_lt_of_secs_lt (by push_cast; linarith))
  -- the threshold leaves a poll interval beyond that
  obtain ⟨threshold, hthreshold, hlt⟩ := lt_threshold hmax hpoll (by omega) hrange hr
  rw [storedFreshness_of_published hjson hmem (hpublished _ hmem) hoffset hutc hthreshold, htotal,
    hlt]

end Runs

end ArgoExporter.Main

namespace ArgoExporter.Reference

open ArgoExporter.Py
open ArgoExporter.Consumer
open ArgoExporter.Main

/-- Four hundred seconds into 2026, in UTC. -/
def beforeSecondCommit : DateTime := ⟨⟨63902822800000000, by decide⟩, some 0⟩

theorem denotes_beforeSecondCommit : Denotes beforeSecondCommit (newYear + 400) := by
  refine ⟨0, beforeSecondCommit.naive, rfl, astimezoneUtc_zero _, ?_⟩
  norm_num [newYear, beforeSecondCommit, microsPerSecond]

theorem age_beforeSecondCommit : totalSeconds beforeSecondCommit.naive
    firstCompleted.pass.inputs.now.naive = .fin 400 := by
  have hquotient : ((((beforeSecondCommit.naive.micros : Int) -
      firstCompleted.pass.inputs.now.naive.micros : Int) : Rat) / microsPerSecond) =
        ((400 : Int) : Rat) := by
    norm_num [beforeSecondCommit, firstCompleted, pass, cycle, instant, Ledger.micros_naive,
      microsPerSecond]
  rw [totalSeconds, hquotient]
  exact PyFloat.ofRat_intCast (by norm_num)

theorem twoCycles_captures : ∀ completed ∈ twoCycles, completed.CapturesStart := by
  rw [twoCycles_eq]
  intro completed hmem
  simp only [List.mem_cons, List.not_mem_nil, or_false] at hmem
  unfold CompletedPass.CapturesStart
  rw [eq_comm, Int.floor_eq_iff]
  rcases hmem with rfl | rfl
  · norm_num [firstCompleted, pass, cycle, instant, newYear]
  · norm_num [secondCompleted, pass, cycle, instant, newYear]

end ArgoExporter.Reference

namespace ArgoExporter.Main

open ArgoExporter.Py

/-- Just before the second cycle commits, the first one is still fresh. -/
theorem healthy_exporter_fresh_reference :
    storedFreshness Reference.platform Reference.config.destPrefix Reference.firstCompleted.store
      Reference.beforeSecondCommit (.int 121) = some (.ok true) := by
  refine healthy_exporter_fresh Reference.jsonFaithful Reference.config_loaded
    Reference.twoCycles_published Reference.twoCycles_captures Reference.twoCycles_duration
    (.int 121 ?_ ?_) ?_ Reference.twoCycles_consecutive Reference.denotes_beforeSecondCommit ?_ ?_
  · norm_num
  · norm_num [Reference.config]
  · norm_num [Reference.config]
  · rw [Reference.firstCompleted_finish]
    linarith
  · rw [Reference.secondCompleted_finish]
    linarith

/-- The same reader with the longest cycle as its bound sees the run as stale right before its
    second commit. -/
theorem healthy_exporter_may_be_stale :
    (∀ completed ∈ Reference.twoCycles, completed.outcome = .published) ∧
    (∀ completed ∈ Reference.twoCycles, completed.CapturesStart) ∧
    (∀ pass ∈ Reference.earlyThenLate, pass.timing.duration ≤ 60) ∧
    Consecutive Reference.twoCycles Reference.firstCompleted Reference.secondCompleted ∧
    Denotes Reference.beforeSecondCommit (Reference.newYear + 400) ∧
    Reference.firstCompleted.finish ≤ Reference.newYear + 400 ∧
    Reference.newYear + 400 < Reference.secondCompleted.finish ∧
    storedFreshness Reference.platform Reference.config.destPrefix Reference.firstCompleted.store
      Reference.beforeSecondCommit (.int 60) = some (.ok false) := by
  refine ⟨Reference.twoCycles_published, Reference.twoCycles_captures,
    Reference.twoCycles_duration, Reference.twoCycles_consecutive,
    Reference.denotes_beforeSecondCommit, ?_, ?_, ?_⟩
  · rw [Reference.firstCompleted_finish]
    linarith
  · rw [Reference.secondCompleted_finish]
    linarith
  · have hmem := Reference.twoCycles_consecutive.mem.1
    have hthreshold : IsThreshold Reference.config.pollIntervalSeconds (.int 60)
        (.fin ((60 + 300 : Int) : Rat)) := fun _ hinterval =>
      threshold_of_int hinterval (by decide) (by norm_num) (by norm_num [Reference.config])
    have hoffset : Reference.beforeSecondCommit.utcoffset = some 0 := rfl
    rw [storedFreshness_of_published Reference.jsonFaithful hmem
      (Reference.twoCycles_published _ hmem) hoffset (astimezoneUtc_zero _) hthreshold,
      Reference.age_beforeSecondCommit]
    rfl

end ArgoExporter.Main
