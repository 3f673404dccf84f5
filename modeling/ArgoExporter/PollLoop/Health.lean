/-
  ArgoExporter.PollLoop.Health

  What `/health` answers while the poll loop runs.  A success is recorded when
  a published cycle returns and is stale two poll intervals later, so with
  cycles shorter than the interval one cycle that does not publish is enough,
  and needed, to make the endpoint stale before the next success.  An instant
  is what the monotonic clock reads at it.
-/

import ArgoExporter.Health
import ArgoExporter.PollLoop.Progress

namespace ArgoExporter.Main

open ArgoExporter.Lib
open ArgoExporter.Py
open ArgoExporter.S3io
open ArgoExporter.Health

variable {Bytes : Type} {cfg : Config}

/-! ## The heartbeat of a run -/

/-- `_run_cycle` returned `True`, so the loop records a success. -/
def isPublished : CycleOutcome → Bool
  | .published => true
  | .skipped _ | .raised _ _ => false

theorem isPublished_iff {outcome : CycleOutcome} :
    isPublished outcome = true ↔ outcome = .published := by
  cases outcome <;> simp [isPublished]

/-- The last cycle that was published by `t`. -/
def lastSuccess (run : List (CompletedPass Bytes cfg)) (t : Rat) :
    Option (CompletedPass Bytes cfg) :=
  (run.filter fun completed => isPublished completed.outcome && decide (completed.finish ≤ t)).getLast?

/-- What the loop has recorded by `t`, with this wall clock. -/
def heartbeatAt (wall : Rat → Rat) (run : List (CompletedPass Bytes cfg)) (t : Rat) : Heartbeat :=
  match lastSuccess run t with
  | none => .reset
  | some completed => .recorded completed.finish (wall completed.finish)

/-- A request at `t` does not answer `starting` or `stale`. -/
def HealthyAt (wall : Rat → Rat) (run : List (CompletedPass Bytes cfg)) (t : Rat) : Prop :=
  (HealthState.ofConfig cfg).clears t (heartbeatAt wall run t) = false

theorem lastSuccess_eq {before after : List (CompletedPass Bytes cfg)}
    {completed : CompletedPass Bytes cfg} {t : Rat} (hpublished : completed.outcome = .published)
    (hfinish : completed.finish ≤ t)
    (hafter : ∀ later ∈ after, later.outcome = .published → t < later.finish) :
    lastSuccess (before ++ completed :: after) t = some completed := by
  have hnone : after.filter (fun later =>
      isPublished later.outcome && decide (later.finish ≤ t)) = [] := by
    rw [List.filter_eq_nil_iff]
    intro later hlater h
    rw [Bool.and_eq_true, isPublished_iff, decide_eq_true_eq] at h
    exact absurd h.2 (not_le.mpr (hafter later hlater h.1))
  have hkept : (isPublished completed.outcome && decide (completed.finish ≤ t)) = true := by
    rw [Bool.and_eq_true, isPublished_iff, decide_eq_true_eq]
    exact ⟨hpublished, hfinish⟩
  rw [lastSuccess, List.filter_append, List.filter_cons, hkept, if_pos rfl, hnone,
    List.getLast?_concat]

/-- Until the next success, health is the age of the last one. -/
theorem healthyAt_iff {before after : List (CompletedPass Bytes cfg)}
    {completed : CompletedPass Bytes cfg} {wall : Rat → Rat} {t : Rat}
    (hpublished : completed.outcome = .published) (hfinish : completed.finish ≤ t)
    (hafter : ∀ later ∈ after, later.outcome = .published → t < later.finish) :
    HealthyAt wall (before ++ completed :: after) t ↔
      reaches (ageSeconds t completed.finish) (cfg.pollIntervalSeconds * 2) = false := by
  unfold HealthyAt heartbeatAt
  rw [lastSuccess_eq hpublished hfinish hafter]
  rfl

/-! ## Distances -/

/-- The second cycle starts the poll interval or more after the first returned. -/
def Apart (completed later : CompletedPass Bytes cfg) : Prop :=
  completed.finish + cfg.pollIntervalSeconds ≤ later.start

theorem pairwise_apart {py : Platform Bytes} (hpoll : 0 ≤ cfg.pollIntervalSeconds) {clock : Rat}
    {store : ObjectStore Bytes} {passes : List (Pass cfg)} :
    (runPollLoop py clock store passes).Pairwise Apart := by
  have hpoll' : (0 : Rat) ≤ cfg.pollIntervalSeconds := by exact_mod_cast hpoll
  have htrans : Trans (@Apart Bytes cfg) Apart Apart := ⟨fun {a b c} hab hbc => by
    have hnonneg := b.pass.timing.duration_nonneg
    unfold Apart at *
    rw [b.finish_eq] at hbc
    linarith⟩
  have hchain : (runPollLoop py clock store passes).IsChain Apart :=
    isChain_runPollLoop.imp fun completed next hfollows => (show next.start = _ from hfollows).ge
  exact hchain.pairwise

/-- A later cycle returns later, by the poll interval and its own duration. -/
theorem Apart.finish_le {completed later : CompletedPass Bytes cfg} (h : Apart completed later) :
    completed.finish + cfg.pollIntervalSeconds + later.pass.timing.duration ≤ later.finish := by
  unfold Apart at h
  rw [later.finish_eq]
  linarith

/-- The last of some cycles that had returned by `t`, when the first of them had. -/
theorem exists_last_returned {t : Rat} {first : CompletedPass Bytes cfg}
    {rest : List (CompletedPass Bytes cfg)}
    (hsorted : (first :: rest).Pairwise fun a b => a.finish < b.finish) (hfirst : first.finish ≤ t) :
    ∃ before last after, first :: rest = before ++ last :: after ∧ last.finish ≤ t ∧
      ∀ later ∈ after, t < later.finish := by
  induction rest generalizing first with
  | nil => exact ⟨[], first, [], rfl, hfirst, by simp⟩
  | cons second rest ih =>
      obtain ⟨hlater, hrest⟩ := List.pairwise_cons.mp hsorted
      by_cases hsecond : second.finish ≤ t
      · obtain ⟨before, last, after, heq, hlast, hafter⟩ := ih hrest hsecond
        exact ⟨first :: before, last, after, by rw [heq]; rfl, hlast, hafter⟩
      -- the second has not returned by `t`, so none of the later ones has
      · rw [not_le] at hsecond
        refine ⟨[], first, second :: rest, rfl, hfirst, List.forall_mem_cons.mpr ⟨hsecond, ?_⟩⟩
        exact fun later hmem => hsecond.trans ((List.pairwise_cons.mp hrest).1 later hmem)

/-- The last published of some cycles, the first of which is. -/
theorem exists_last_published {first : CompletedPass Bytes cfg}
    (hfirst : first.outcome = .published) (rest : List (CompletedPass Bytes cfg)) :
    ∃ before last after, first :: rest = before ++ last :: after ∧ last.outcome = .published ∧
      ∀ later ∈ after, later.outcome ≠ .published := by
  induction rest using List.reverseRecOn with
  | nil => exact ⟨[], first, [], rfl, hfirst, by simp⟩
  | append_singleton rest final ih =>
      by_cases hfinal : final.outcome = .published
      · exact ⟨first :: rest, final, [], by simp, hfinal, by simp⟩
      · obtain ⟨before, last, after, heq, hlast, hafter⟩ := ih
        refine ⟨before, last, after ++ [final], ?_, hlast, ?_⟩
        · rw [← List.cons_append, heq, List.append_assoc, List.cons_append]
        · intro later hmem
          rcases List.mem_append.mp hmem with hmem | hmem
          · exact hafter later hmem
          · rw [List.mem_singleton.mp hmem]
            exact hfinal

/-! ## Between two successes -/

section Between

variable {py : Platform Bytes} (wall : Rat → Rat)

/-- Two poll intervals after a success it is stale. -/
theorem reaches_twice {last : Rat} {n : Int} (h0 : 0 ≤ n) (hn : n ≤ 2 ^ 53) :
    reaches (ageSeconds (last + n) last) n = true := by
  rw [reaches_ageSeconds_iff, add_sub_cancel_left]
  exact Or.inr (Or.inl (Binary64.intCast_le_round h0 hn (le_refl _)))

/-- A microsecond earlier it is not. -/
theorem not_reaches_before {t last : Rat} {n : Int} (hpos : 0 < n) (hn : n ≤ 2 ^ 34)
    (hlast : last ≤ t) (ht : t - last ≤ n - 1 / 1000000) :
    reaches (ageSeconds t last) n = false := by
  have hround := Binary64.round_lt_intCast (sub_nonneg.mpr hlast) ht hn
  have hmax : (n : Rat) ≤ maxDouble := by
    have hn' : (n : Rat) ≤ 2 ^ 34 := by exact_mod_cast hn
    unfold maxDouble
    exact hn'.trans (pow_le_pow_right₀ (by norm_num) (by norm_num))
  rw [← Bool.not_eq_true, reaches_ageSeconds_iff]
  rintro (h | h | h)
  · omega
  · exact absurd h (not_le.mpr hround)
  · exact absurd (hmax.trans h) (not_le.mpr hround)

/-- A cycle that is not published leaves the last success to become stale before the next one. -/
theorem stale_after_failure {before unpublished after : List (CompletedPass Bytes cfg)}
    {c failed : CompletedPass Bytes cfg}
    (hapart : (before ++ c :: (unpublished ++ failed :: after)).Pairwise Apart)
    (hc : c.outcome = .published) (hun : ∀ later ∈ unpublished, later.outcome ≠ .published)
    (hfailed : failed.outcome ≠ .published) (hpoll0 : 0 ≤ cfg.pollIntervalSeconds)
    (hpoll : cfg.pollIntervalSeconds ≤ 2 ^ 33) (hpositive : 0 < failed.pass.timing.duration) :
    (∀ later ∈ after, c.finish + (cfg.pollIntervalSeconds * 2 : Int) < later.finish) ∧
      ¬ HealthyAt wall (before ++ c :: (unpublished ++ failed :: after))
        (c.finish + (cfg.pollIntervalSeconds * 2 : Int)) := by
  obtain ⟨hfrom, hrest⟩ := List.pairwise_cons.mp (List.pairwise_append.mp hapart).2.1
  have hfailedApart := (hfrom failed (by simp)).finish_le
  have hgap : ∀ later ∈ after, c.finish + (cfg.pollIntervalSeconds * 2 : Int) < later.finish := by
    intro later hlater
    have hlaterApart :=
      ((List.pairwise_cons.mp (List.pairwise_append.mp hrest).2.1).1 later hlater).finish_le
    have hnonneg := later.pass.timing.duration_nonneg
    push_cast
    linarith
  refine ⟨hgap, fun hhealthy => ?_⟩
  have hpoll0' : (0 : Rat) ≤ cfg.pollIntervalSeconds := by exact_mod_cast hpoll0
  rw [healthyAt_iff hc (by push_cast; linarith) (fun later hlater hpublished => ?_)] at hhealthy
  · rw [reaches_twice (by omega) (by omega)] at hhealthy
    exact absurd hhealthy (by simp)
  · rcases List.mem_append.mp hlater with hlater | hlater
    · exact absurd hpublished (hun later hlater)
    · rcases List.mem_cons.mp hlater with rfl | hlater
      · exact absurd hpublished hfailed
      · exact hgap later hlater

/-- Until the next cycle of a run returns, its last success is young. -/
theorem healthy_until_next {clock : Rat} {store : ObjectStore Bytes} {passes : List (Pass cfg)}
    {before after : List (CompletedPass Bytes cfg)} {c next : CompletedPass Bytes cfg}
    (hrun : runPollLoop py clock store passes = before ++ c :: next :: after)
    (hpoll0 : 0 < cfg.pollIntervalSeconds) (hpoll : cfg.pollIntervalSeconds ≤ 2 ^ 33)
    (hshort : next.pass.timing.duration ≤ cfg.pollIntervalSeconds - 1 / 1000000) {t : Rat}
    (hct : c.finish ≤ t) (ht : t ≤ next.finish) :
    reaches (ageSeconds t c.finish) (cfg.pollIntervalSeconds * 2) = false := by
  have hconsecutive : Consecutive (runPollLoop py clock store passes) c next :=
    ⟨before, after, by rw [hrun]; simp⟩
  have hfollows : next.start = c.finish + cfg.pollIntervalSeconds := hconsecutive.follows
  rw [next.finish_eq, hfollows] at ht
  refine not_reaches_before (by omega) (by omega) hct ?_
  push_cast
  linarith

end Between

/-- With cycles that take some time, but a microsecond less than the poll interval at most, `/health`
    answers 200 at every instant from one success to a later one exactly when every cycle between
    them is published. -/
theorem healthy_throughout_iff {py : Platform Bytes} {clock : Rat} {store : ObjectStore Bytes}
    {passes : List (Pass cfg)} {before between after : List (CompletedPass Bytes cfg)}
    {a b : CompletedPass Bytes cfg} (wall : Rat → Rat)
    (hrun : runPollLoop py clock store passes = before ++ a :: between ++ b :: after)
    (ha : a.outcome = .published) (hb : b.outcome = .published)
    (hpoll : cfg.pollIntervalSeconds ≤ 2 ^ 33)
    (hpositive : ∀ pass ∈ passes, 0 < pass.timing.duration)
    (hshort : ∀ pass ∈ passes, pass.timing.duration ≤ cfg.pollIntervalSeconds - 1 / 1000000) :
    (∀ t, a.finish ≤ t → t ≤ b.finish → HealthyAt wall (runPollLoop py clock store passes) t) ↔
      ∀ completed ∈ between, completed.outcome = .published := by
  have hmem : ∀ completed ∈ before ++ a :: between ++ b :: after, completed.pass ∈ passes :=
    fun completed h => pass_mem_of_mem (hrun ▸ h)
  have hpoll0 : 0 < cfg.pollIntervalSeconds := by
    have h0 := hpositive _ (hmem a (by simp))
    have h1 := hshort _ (hmem a (by simp))
    have hlt : (0 : Rat) < cfg.pollIntervalSeconds := by linarith
    exact_mod_cast hlt
  have hapart : (before ++ a :: between ++ b :: after).Pairwise Apart :=
    hrun ▸ pairwise_apart hpoll0.le
  have hsorted : (a :: (between ++ [b])).Pairwise fun x y => x.finish < y.finish := by
    have hsub : (a :: (between ++ [b])).Sublist (before ++ a :: between ++ b :: after) := by
      simp [List.append_assoc]
    refine (hapart.sublist hsub).imp fun {x y} hxy => ?_
    have hle := hxy.finish_le
    have hnonneg := y.pass.timing.duration_nonneg
    have hpos : (0 : Rat) < cfg.pollIntervalSeconds := by exact_mod_cast hpoll0
    linarith
  constructor
  · intro hhealthy failed hfailed
    by_contra hunpublished
    obtain ⟨between₁, between₂, rfl⟩ := List.append_of_mem hfailed
    obtain ⟨before', c, unpublished, hsplit, hc, hun⟩ := exists_last_published ha between₁
    have heq : before ++ a :: (between₁ ++ failed :: between₂) ++ b :: after =
        (before ++ before') ++ c :: (unpublished ++ failed :: (between₂ ++ b :: after)) := by
      have hfirst : before ++ a :: (between₁ ++ failed :: between₂) ++ b :: after =
          before ++ (a :: between₁) ++ failed :: (between₂ ++ b :: after) := by simp
      rw [hfirst, hsplit]
      simp
    have hac : a.finish ≤ c.finish := by
      have hmemc : c ∈ a :: between₁ := hsplit ▸ by simp
      rcases List.mem_cons.mp hmemc with rfl | hmemc
      · exact le_refl _
      · exact ((List.pairwise_cons.mp hsorted).1 c (by simp [hmemc])).le
    rw [hrun, heq] at hhealthy
    rw [heq] at hapart hmem
    obtain ⟨hgap, hstale⟩ := stale_after_failure wall hapart hc hun hunpublished hpoll0.le
      hpoll (hpositive _ (hmem failed (by simp)))
    refine hstale (hhealthy _ ?_ (hgap b (by simp)).le)
    have hnonneg : (0 : Rat) ≤ (cfg.pollIntervalSeconds * 2 : Int) := by exact_mod_cast (by omega)
    linarith
  · intro hpublished t hat htb
    obtain ⟨before', last, later, hsplit, hlast, hlater⟩ := exists_last_returned hsorted hat
    have heq : before ++ a :: between ++ b :: after =
        (before ++ before') ++ last :: (later ++ after) := by
      have hfirst : before ++ a :: between ++ b :: after =
          before ++ (a :: (between ++ [b])) ++ after := by simp
      rw [hfirst, hsplit]
      simp
    have hlastPublished : last.outcome = .published := by
      have hmemLast : last ∈ a :: (between ++ [b]) := hsplit ▸ by simp
      simp only [List.mem_cons, List.mem_append, List.not_mem_nil, or_false] at hmemLast
      rcases hmemLast with rfl | hmemLast | rfl
      · exact ha
      · exact hpublished last hmemLast
      · exact hb
    have hafter : ∀ x ∈ later ++ after, x.outcome = .published → t < x.finish := by
      intro x hx _
      rcases List.mem_append.mp hx with hx | hx
      · exact hlater x hx
      · have hbx := ((List.pairwise_cons.mp (List.pairwise_append.mp hapart).2.1).1 x hx).finish_le
        have hnonneg := x.pass.timing.duration_nonneg
        have hpos : (0 : Rat) < cfg.pollIntervalSeconds := by exact_mod_cast hpoll0
        linarith
    rw [hrun, heq, healthyAt_iff hlastPublished hlast hafter]
    cases later with
    | nil =>
        -- the last of these cycles is the later success itself
        have hlastb : last = b := by
          have hconcat : (a :: between) ++ [b] = before' ++ [last] := hsplit
          exact (List.append_inj_right' hconcat rfl |> List.singleton_inj.mp).symm
        subst hlastb
        refine not_reaches_before (by omega) (by omega) hlast ?_
        have hone : (1 : Rat) ≤ (cfg.pollIntervalSeconds * 2 : Int) := by exact_mod_cast (by omega)
        linarith
    | cons next later =>
        rw [heq] at hmem
        have hnext := hlater next List.mem_cons_self
        have hsplit' : runPollLoop py clock store passes =
            (before ++ before') ++ last :: next :: (later ++ after) := hrun.trans heq
        exact healthy_until_next hsplit' hpoll0 hpoll (hshort _ (hmem next (by simp))) hlast hnext.le

end ArgoExporter.Main

namespace ArgoExporter.Reference

open ArgoExporter.Main

/-! ## A run with an outage -/

/-- A minute-long pass whose last PUT fails. -/
def failingPass (n : Nat) (c : Char) (hn : n < 1000000 := by decide)
    (hc : MetaSchema.hexClass c = true := by decide) : Pass config :=
  ⟨cycle n c (.failed ⟨.clientError "InternalError", "put"⟩ false) hn hc, prompt⟩

/-- The third of four cycles fails; the first one starts an hour into 2026. -/
def outagePasses : List (Pass config) :=
  [pass 3600 'c' prompt, pass 3960 'd' prompt, failingPass 4320 'e', pass 4680 'f' prompt]

def outage : List (CompletedPass TaggedBytes config) :=
  runPollLoop platform (newYear + 3600) emptyStore outagePasses

theorem outage_published {n : Nat} {c : Char} (hn : n < 1000000)
    (hc : MetaSchema.hexClass c = true) :
    ∀ completed ∈ outage, completed.pass = pass n c prompt hn hc →
      completed.outcome = .published := by
  intro completed hcompleted hpass
  refine published_of_collectable parquetFaithful jsonFaithful (Config.load_accepted config_loaded)
    (readable_of_absent parquetFaithful rfl) completed hcompleted ?_ ?_
  · rw [hpass]
    exact collectable_cycle n c .served hn hc
  · rw [hpass]
    exact ⟨rfl, rfl, rfl⟩

theorem outage_failed {n : Nat} {c : Char} (hn : n < 1000000)
    (hc : MetaSchema.hexClass c = true) :
    ∀ completed ∈ outage, completed.pass = failingPass n c hn hc →
      completed.outcome ≠ .published := by
  intro completed hcompleted hpass hpublished
  obtain ⟨before, hrun⟩ := runCycle_of_mem hcompleted
  rw [hpass] at hrun
  have hserved := putsServed_of_published ((congrArg Prod.fst hrun).trans hpublished)
  exact absurd hserved.2.2 (by simp [failingPass, cycle])

theorem outage_duration : ∀ p ∈ outagePasses, p.timing.duration = 60 := by
  intro p hp
  simp only [outagePasses, List.mem_cons, List.not_mem_nil, or_false] at hp
  rcases hp with rfl | rfl | rfl | rfl <;> rfl

end ArgoExporter.Reference

namespace ArgoExporter.Main

open ArgoExporter.Py
open ArgoExporter.Health

/-- Two successes, a cycle that fails, and a success: `/health` does not answer 200 throughout. -/
theorem healthy_throughout_reference :
    ∃ a second failed b, Reference.outage = [a, second, failed, b] ∧
      a.outcome = .published ∧ second.outcome = .published ∧ failed.outcome ≠ .published ∧
      b.outcome = .published ∧
      ¬ ∀ t, a.finish ≤ t → t ≤ b.finish → HealthyAt (fun t => t) Reference.outage t := by
  obtain ⟨a, second, failed, b, hrun, ha, hsecond, hfailed, hb⟩ :
      ∃ a second failed b, Reference.outage = [a, second, failed, b] ∧
        a.pass = Reference.pass 3600 'c' Reference.prompt ∧
        second.pass = Reference.pass 3960 'd' Reference.prompt ∧
        failed.pass = Reference.failingPass 4320 'e' ∧
        b.pass = Reference.pass 4680 'f' Reference.prompt :=
    ⟨_, _, _, _, rfl, rfl, rfl, rfl, rfl⟩
  have ha := Reference.outage_published _ _ a (hrun ▸ by simp) ha
  have hsecond := Reference.outage_published _ _ second (hrun ▸ by simp) hsecond
  have hfailed := Reference.outage_failed _ _ failed (hrun ▸ by simp) hfailed
  have hb := Reference.outage_published _ _ b (hrun ▸ by simp) hb
  refine ⟨a, second, failed, b, hrun, ha, hsecond, hfailed, hb, fun hhealthy => ?_⟩
  refine hfailed ((healthy_throughout_iff (fun t => t)
    (show _ = [] ++ a :: [second, failed] ++ b :: [] from hrun) ha hb (by decide) (fun p hp => ?_)
    (fun p hp => ?_)).mp hhealthy failed (by simp))
  · rw [Reference.outage_duration p hp]
    norm_num
  · rw [Reference.outage_duration p hp]
    have hinterval : Reference.config.pollIntervalSeconds = 300 := rfl
    rw [hinterval]
    norm_num

end ArgoExporter.Main
