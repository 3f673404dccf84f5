/-
  ArgoExporter.PollLoop.Shutdown

  `_run_poll_loop` with a stop event that a signal handler sets at any instant.
  The event is looked at between cycles only, and ends a wait at once, so the
  loop makes the cycles of the uninterrupted loop that start before the signal,
  each of them whole, and returns without another one.  Only a poll interval
  that no wait accepts ends it otherwise, with an exception after one cycle.
-/

import ArgoExporter.Lib.WhileLoop
import ArgoExporter.PollLoop.Progress
import Mathlib.Data.Rat.Floor

namespace ArgoExporter.Main

open ArgoExporter.Lib
open ArgoExporter.Py
open ArgoExporter.S3io

variable {Bytes : Type} (py : Platform Bytes) {cfg : Config}

/-! ## The loop -/

/-- `stop.is_set()` at `t`, when the event is set at `stop` if ever. -/
def isSet (stop : Option Rat) (t : Rat) : Bool :=
  match stop with
  | none => false
  | some set => set ≤ t

/-- When a wait for the event ends that begins at `t`. -/
def waitUntil (stop : Option Rat) (t timeout : Rat) : Rat :=
  match stop with
  | none => t + timeout
  | some set => min (max t set) (t + timeout)

/-- `threading.TIMEOUT_MAX`, the longest wait for a lock in seconds. -/
def timeoutMax : Int := 9223372036

/-- What a wait with a longer timeout raises. -/
def timeoutTooLarge : Exc :=
  ⟨.overflowError, "timestamp too large to convert to C _PyTime_t"⟩

/-- When `stop.wait(timeout)` returns that is called at `t`.  An event that is set is not waited for,
    so only then does the length of the timeout not matter. -/
def eventWait (stop : Option Rat) (t : Rat) (timeout : Int) : Except Exc Rat :=
  if isSet stop t then .ok t
  else if timeoutMax < timeout then .error timeoutTooLarge
  else .ok (waitUntil stop t timeout)

/-- What the loop logs when a cycle returns; every exception of a cycle has its context. -/
def loopMessage (stopped : Bool) : CycleOutcome → String
  | .published => "cycle completed"
  | .skipped _ => "cycle did not complete, will retry next interval"
  | .raised _ _ =>
      if stopped then "cycle failed during shutdown; see cycle failure context above"
      else "cycle failed; see cycle failure context above"

/-- The loop between two passes: the time, the store, the passes so far and what was logged. -/
structure LoopState (Bytes : Type) (cfg : Config) where
  clock : Rat
  store : ObjectStore Bytes
  completed : List (CompletedPass Bytes cfg)
  messages : List String

/-- How the loop ends: the state it leaves, and the exception that leaves it, if one does. -/
structure LoopExit (Bytes : Type) (cfg : Config) where
  state : LoopState Bytes cfg
  error : Option Exc

/-- One cycle of the loop, up to its wait, `cycles` being what each cycle meets if it is made. -/
def afterCycle (stop : Option Rat) (cycles : Nat → Pass cfg) (s : LoopState Bytes cfg) :
    LoopState Bytes cfg :=
  let pass := cycles s.completed.length
  let result := runCycle py cfg pass.inputs s.store
  let completed : CompletedPass Bytes cfg := ⟨s.clock, pass, result.1, result.2⟩
  ⟨completed.finish, result.2, s.completed ++ [completed],
    s.messages ++ [loopMessage (isSet stop completed.finish) result.1]⟩

/-- One pass through the loop; the wait is outside its `try`. -/
def loopTurn (stop : Option Rat) (cycles : Nat → Pass cfg) (s : LoopState Bytes cfg) :
    Turn (LoopState Bytes cfg) (LoopExit Bytes cfg) :=
  if isSet stop s.clock then .done ⟨s, none⟩
  else
    let s' := afterCycle py stop cycles s
    match eventWait stop s'.clock cfg.pollIntervalSeconds with
    | .ok clock => .next { s' with clock }
    | .error e => .done ⟨s', some e⟩

def loopStart (clock : Rat) (store : ObjectStore Bytes) : LoopState Bytes cfg :=
  ⟨clock, store, [], []⟩

/-! ## The uninterrupted loop -/

/-- When the uninterrupted loop would start its next pass, and on which store. -/
def loopEnd (clock : Rat) (store : ObjectStore Bytes) : List (Pass cfg) → Rat × ObjectStore Bytes
  | [] => (clock, store)
  | pass :: passes =>
      loopEnd (clock + pass.timing.duration + cfg.pollIntervalSeconds)
        (runCycle py cfg pass.inputs store).2 passes

/-- The first passes. -/
def firstPasses (cycles : Nat → Pass cfg) (n : Nat) : List (Pass cfg) := (List.range n).map cycles

variable {py} {clock : Rat} {store : ObjectStore Bytes}

theorem runPollLoop_append (ps qs : List (Pass cfg)) :
    runPollLoop py clock store (ps ++ qs) = runPollLoop py clock store ps ++
      runPollLoop py (loopEnd py clock store ps).1 (loopEnd py clock store ps).2 qs := by
  induction ps generalizing clock store with
  | nil => rfl
  | cons p ps ih =>
      show _ :: runPollLoop py _ _ (ps ++ qs) = _
      rw [ih]
      rfl

theorem loopEnd_concat (ps : List (Pass cfg)) (p : Pass cfg) :
    loopEnd py clock store (ps ++ [p]) =
      ((loopEnd py clock store ps).1 + p.timing.duration + cfg.pollIntervalSeconds,
        (runCycle py cfg p.inputs (loopEnd py clock store ps).2).2) := by
  induction ps generalizing clock store with
  | nil => rfl
  | cons p' ps ih => exact ih

theorem firstPasses_succ (cycles : Nat → Pass cfg) (n : Nat) :
    firstPasses cycles (n + 1) = firstPasses cycles n ++ [cycles n] := by
  rw [firstPasses, List.range_succ, List.map_append]
  rfl

/-! ## What the loop has done -/

/-- The loop has made the first passes of the uninterrupted one, all of which started before the
    event was set, and is at the next start, or where the event ended the wait. -/
structure LoopInv (py : Platform Bytes) (stop : Option Rat) (cycles : Nat → Pass cfg) (clock : Rat)
    (store : ObjectStore Bytes) (s : LoopState Bytes cfg) : Prop where
  completed : s.completed = runPollLoop py clock store (firstPasses cycles s.completed.length)
  onStore : s.store = (loopEnd py clock store (firstPasses cycles s.completed.length)).2
  started : ∀ c ∈ s.completed, isSet stop c.start = false
  next : isSet stop s.clock = false →
    s.clock = (loopEnd py clock store (firstPasses cycles s.completed.length)).1
  le_next : s.clock ≤ (loopEnd py clock store (firstPasses cycles s.completed.length)).1
  ended : ∀ set, stop = some set → set ≤ s.clock →
    s.clock = s.completed.getLast?.elim clock fun c => max c.finish set

theorem loopInv_start (stop : Option Rat) (cycles : Nat → Pass cfg) :
    LoopInv py stop cycles clock store (loopStart clock store) where
  completed := rfl
  onStore := rfl
  started c hc := absurd hc (by simp [loopStart])
  next _ := rfl
  le_next := le_refl _
  ended _ _ _ := rfl

theorem loopTurn_eq_next {stop : Option Rat} {cycles : Nat → Pass cfg} {s s' : LoopState Bytes cfg}
    (h : loopTurn py stop cycles s = .next s') :
    isSet stop s.clock = false ∧ ∃ clock',
      eventWait stop (afterCycle py stop cycles s).clock cfg.pollIntervalSeconds = .ok clock' ∧
        s' = { afterCycle py stop cycles s with clock := clock' } := by
  unfold loopTurn at h
  split_ifs at h with hset
  dsimp only at h
  split at h
  · rename_i clock' hwait
    exact ⟨by simpa using hset, clock', hwait, (Turn.next.inj h).symm⟩
  · exact absurd h (by simp)

theorem loopTurn_eq_done {stop : Option Rat} {cycles : Nat → Pass cfg} {s : LoopState Bytes cfg}
    {exit : LoopExit Bytes cfg} (h : loopTurn py stop cycles s = .done exit) :
    isSet stop s.clock = true ∧ exit = ⟨s, none⟩ ∨
      isSet stop s.clock = false ∧ ∃ e,
        eventWait stop (afterCycle py stop cycles s).clock cfg.pollIntervalSeconds = .error e ∧
          exit = ⟨afterCycle py stop cycles s, some e⟩ := by
  unfold loopTurn at h
  split_ifs at h with hset
  · exact Or.inl ⟨hset, (Turn.done.inj h).symm⟩
  · dsimp only at h
    split at h
    · exact absurd h (by simp)
    · rename_i e hwait
      exact Or.inr ⟨by simpa using hset, e, hwait, (Turn.done.inj h).symm⟩

/-! ## Waiting -/

section Waiting

variable {stop : Option Rat} {t timeout : Rat}

theorem waitUntil_le : waitUntil stop t timeout ≤ t + timeout := by
  cases stop with
  | none => exact le_refl _
  | some set => exact min_le_right _ _

/-- A wait that ends before the event is set took the whole timeout. -/
theorem waitUntil_of_not_set (h : isSet stop (waitUntil stop t timeout) = false) :
    waitUntil stop t timeout = t + timeout := by
  cases stop with
  | none => rfl
  | some set =>
      have hlt : waitUntil (some set) t timeout < set := by simpa [isSet] using h
      refine min_eq_right (le_of_not_gt fun hgt => ?_)
      have hmax : waitUntil (some set) t timeout = max t set := min_eq_left hgt.le
      exact absurd (le_max_right t set) (not_le.mpr (hmax ▸ hlt))

/-- A wait that ends with the event set ended when it was, or at once. -/
theorem waitUntil_of_set {set : Rat} (htimeout : 0 ≤ timeout)
    (h : set ≤ waitUntil (some set) t timeout) : waitUntil (some set) t timeout = max t set := by
  have hle : set ≤ t + timeout := h.trans waitUntil_le
  exact min_eq_left (max_le (by linarith) hle)

/-- A wait that returns before the event is set was for a timeout that is accepted. -/
theorem eventWait_eq_ok {timeout : Int} {t' : Rat} (htimeout : 0 ≤ timeout)
    (h : eventWait stop t timeout = .ok t') :
    t' = waitUntil stop t timeout ∧ (isSet stop t' = false → timeout ≤ timeoutMax) := by
  unfold eventWait at h
  split_ifs at h with hset htoo
  · rw [← Except.ok.inj h, hset]
    refine ⟨?_, fun hnot => absurd hnot (by simp)⟩
    cases stop with
    | none => exact absurd hset (by simp [isSet])
    | some set =>
        have hle : set ≤ t := by simpa [isSet] using hset
        have htimeout' : (0 : Rat) ≤ timeout := by exact_mod_cast htimeout
        show t = min (max t set) (t + timeout)
        rw [max_eq_left hle, min_eq_left (by linarith)]
  · exact ⟨(Except.ok.inj h).symm, fun _ => not_lt.mp htoo⟩

theorem eventWait_eq_error {timeout : Int} {e : Exc} (h : eventWait stop t timeout = .error e) :
    isSet stop t = false ∧ timeoutMax < timeout ∧ e = timeoutTooLarge := by
  unfold eventWait at h
  split_ifs at h with hset htoo
  exact ⟨by simpa using hset, htoo, (Except.error.inj h).symm⟩

end Waiting

/-! ## A pass through the loop -/

/-- After a cycle the loop has made one more pass of the uninterrupted loop. -/
theorem afterCycle_spec {stop : Option Rat} {cycles : Nat → Pass cfg} {s : LoopState Bytes cfg}
    (h : LoopInv py stop cycles clock store s) (hset : isSet stop s.clock = false) :
    (afterCycle py stop cycles s).completed =
        runPollLoop py clock store (firstPasses cycles (s.completed.length + 1)) ∧
      loopEnd py clock store (firstPasses cycles (s.completed.length + 1)) =
        ((afterCycle py stop cycles s).clock + cfg.pollIntervalSeconds,
          (afterCycle py stop cycles s).store) ∧
      ∀ c ∈ (afterCycle py stop cycles s).completed, isSet stop c.start = false := by
  have hclock := h.next hset
  refine ⟨?_, ?_, fun c hc => ?_⟩
  · rw [firstPasses_succ, runPollLoop_append, ← h.completed, ← hclock, ← h.onStore]
    rfl
  · rw [firstPasses_succ, loopEnd_concat, ← hclock, ← h.onStore]
    rfl
  · rcases List.mem_append.mp hc with hc | hc
    · exact h.started c hc
    · rw [List.mem_singleton.mp hc]
      exact hset

theorem loopTurn_inv {stop : Option Rat} {cycles : Nat → Pass cfg} {s s' : LoopState Bytes cfg}
    (hpoll : 0 ≤ cfg.pollIntervalSeconds) (h : LoopInv py stop cycles clock store s)
    (hturn : loopTurn py stop cycles s = .next s') : LoopInv py stop cycles clock store s' := by
  obtain ⟨hset, clock', hwait, rfl⟩ := loopTurn_eq_next hturn
  obtain ⟨hcompleted, hend, hstarted⟩ := afterCycle_spec h hset
  obtain ⟨rfl, _⟩ := eventWait_eq_ok hpoll hwait
  have hlength : (afterCycle py stop cycles s).completed.length = s.completed.length + 1 :=
    List.length_append
  refine ⟨?_, ?_, hstarted, fun hnot => ?_, ?_, fun set hstop hle => ?_⟩
  · dsimp only
    rw [hlength, ← hcompleted]
  · dsimp only
    rw [hlength, hend]
  · dsimp only at hnot ⊢
    rw [hlength, hend, waitUntil_of_not_set hnot]
  · dsimp only
    rw [hlength, hend]
    exact waitUntil_le
  · have hlast : (afterCycle py stop cycles s).completed.getLast? = some _ := List.getLast?_concat
    dsimp only at hle ⊢
    rw [hlast]
    subst hstop
    exact waitUntil_of_set (by exact_mod_cast hpoll) hle

theorem loopInv_of_reaches {stop : Option Rat} {cycles : Nat → Pass cfg} {s : LoopState Bytes cfg}
    (hpoll : 0 ≤ cfg.pollIntervalSeconds)
    (h : WhileLoop.Reaches (loopTurn py stop cycles) (loopStart clock store) s) :
    LoopInv py stop cycles clock store s :=
  h.invariant (LoopInv py stop cycles clock store) (fun _ _ hinv hturn => loopTurn_inv hpoll hinv hturn)
    (loopInv_start stop cycles)

/-! ## The loop returns -/

/-- How many more cycles fit before the event is set. -/
def remaining (set interval clock : Rat) : Nat := ⌈(set - clock) / interval⌉.toNat

theorem remaining_lt {set interval clock clock' : Rat} (hinterval : 0 < interval)
    (hbefore : clock < set) (hnext : set ≤ clock' ∨ clock + interval ≤ clock') :
    remaining set interval clock' < remaining set interval clock := by
  have hpos : 0 < ⌈(set - clock) / interval⌉ :=
    Int.ceil_pos.mpr (div_pos (sub_pos.mpr hbefore) hinterval)
  unfold remaining
  rcases hnext with hset | hlater
  · have hnone : ⌈(set - clock') / interval⌉ ≤ 0 := by
      rw [Int.ceil_le]
      exact_mod_cast div_nonpos_of_nonpos_of_nonneg (by linarith) hinterval.le
    omega
  · have hle : (set - clock') / interval ≤ (set - clock) / interval - 1 := by
      rw [← div_self hinterval.ne', ← sub_div]
      exact div_le_div_of_nonneg_right (by linarith) hinterval.le
    have hceil : ⌈(set - clock') / interval⌉ ≤ ⌈(set - clock) / interval⌉ - 1 := by
      rw [← Int.ceil_sub_one]
      exact Int.ceil_le_ceil hle
    omega

/-- A wait ends with the event set, or after the whole timeout. -/
theorem le_waitUntil {set t timeout : Rat} :
    set ≤ waitUntil (some set) t timeout ∨ t + timeout ≤ waitUntil (some set) t timeout := by
  have hwait : waitUntil (some set) t timeout = min (max t set) (t + timeout) := rfl
  rw [hwait]
  rcases le_total (max t set) (t + timeout) with h | h
  · exact Or.inl (by rw [min_eq_left h]; exact le_max_right _ _)
  · exact Or.inr (by rw [min_eq_right h])

theorem loopEnd_store (ps : List (Pass cfg)) :
    (loopEnd py clock store ps).2 =
      (runPollLoop py clock store ps).getLast?.elim store CompletedPass.store := by
  induction ps using List.reverseRecOn with
  | nil => rfl
  | append_singleton ps p ih =>
      rw [loopEnd_concat, runPollLoop_append]
      show _ = (_ ++ [_]).getLast?.elim store CompletedPass.store
      rw [List.getLast?_concat]
      rfl

/-- With the event set at some instant the loop ends. -/
theorem exists_exit (cycles : Nat → Pass cfg) (clock set : Rat) (store : ObjectStore Bytes)
    (hpoll : 0 < cfg.pollIntervalSeconds) :
    ∃ exit, WhileLoop.Returns (loopTurn py (some set) cycles) (loopStart clock store) exit := by
  have hpoll' : (0 : Rat) < cfg.pollIntervalSeconds := by exact_mod_cast hpoll
  have hfalls : ∀ s s' : LoopState Bytes cfg,
      WhileLoop.Reaches (loopTurn py (some set) cycles) (loopStart clock store) s →
      loopTurn py (some set) cycles s = .next s' →
      remaining set cfg.pollIntervalSeconds s'.clock <
        remaining set cfg.pollIntervalSeconds s.clock := by
    intro s s' _ hturn
    obtain ⟨hnot, clock', hwait, rfl⟩ := loopTurn_eq_next hturn
    obtain ⟨rfl, _⟩ := eventWait_eq_ok hpoll.le hwait
    refine remaining_lt hpoll' (by simpa [isSet] using hnot) (le_waitUntil.imp_right fun hle => ?_)
    have hnonneg := (cycles s.completed.length).timing.duration_nonneg
    have hfinish : (afterCycle py (some set) cycles s).clock =
        s.clock + (cycles s.completed.length).timing.duration := rfl
    rw [hfinish] at hle
    exact le_trans (by linarith) hle
  obtain ⟨exit, hrun⟩ := WhileLoop.run_of_variant
    (fun s : LoopState Bytes cfg => remaining set cfg.pollIntervalSeconds s.clock) hfalls
  exact ⟨exit, _, hrun⟩

/-- Only the first wait of the loop can be refused. -/
theorem refused_at_start {stop : Option Rat} {cycles : Nat → Pass cfg} {s : LoopState Bytes cfg}
    (hpoll : 0 ≤ cfg.pollIntervalSeconds)
    (h : WhileLoop.Reaches (loopTurn py stop cycles) (loopStart clock store) s)
    (hset : isSet stop s.clock = false) (htoo : timeoutMax < cfg.pollIntervalSeconds) :
    s = loopStart clock store := by
  rcases Relation.ReflTransGen.cases_tail h with hstart | ⟨before, _, hturn⟩
  · exact hstart
  -- the wait before would have been refused already
  · obtain ⟨_, clock', hwait, rfl⟩ := loopTurn_eq_next hturn
    exact absurd ((eventWait_eq_ok hpoll hwait).2 hset) (not_le.mpr htoo)

/-- A first wait that is refused ends the loop after its first cycle. -/
theorem exit_of_refused {cycles : Nat → Pass cfg} {set : Rat}
    (htoo : timeoutMax < cfg.pollIntervalSeconds)
    (hbefore : clock + (cycles 0).timing.duration < set) :
    WhileLoop.Returns (loopTurn py (some set) cycles) (loopStart clock store)
      ⟨afterCycle py (some set) cycles (loopStart clock store), some timeoutTooLarge⟩ := by
  have hnonneg := (cycles 0).timing.duration_nonneg
  have hstart : isSet (some set) clock = false :=
    decide_eq_false (not_le.mpr (by linarith))
  have hfinish : isSet (some set) (clock + (cycles 0).timing.duration) = false :=
    decide_eq_false (not_le.mpr hbefore)
  have hwait : eventWait (some set) (clock + (cycles 0).timing.duration) cfg.pollIntervalSeconds =
      .error timeoutTooLarge := by
    rw [eventWait, if_neg (by simp [hfinish]), if_pos htoo]
  refine .of_done ?_
  show (if isSet (some set) clock then _ else _) = _
  rw [if_neg (by simp [hstart])]
  show (match eventWait (some set) (clock + (cycles 0).timing.duration) cfg.pollIntervalSeconds with
    | .ok _ => _
    | .error _ => _) = _
  rw [hwait]

/-- With the event set at some instant the loop ends, with the passes of the uninterrupted loop that
    start before it and no other, each a whole cycle.  It returns when the last of them and the
    event are over, unless its first wait is refused: then it raises after one cycle. -/
theorem shutdown_is_exact (cycles : Nat → Pass cfg) (clock set : Rat) (store : ObjectStore Bytes)
    (hpoll : 0 < cfg.pollIntervalSeconds) :
    ∃ exit, WhileLoop.Returns (loopTurn py (some set) cycles) (loopStart clock store) exit ∧
      (exit.error = none ↔ cfg.pollIntervalSeconds ≤ timeoutMax ∨
        set ≤ clock + (cycles 0).timing.duration) ∧
      (∀ e, exit.error = some e → e = timeoutTooLarge ∧
        exit.state = afterCycle py (some set) cycles (loopStart clock store)) ∧
      ∃ n, exit.state.completed = runPollLoop py clock store (firstPasses cycles n) ∧
        (∀ c ∈ exit.state.completed, c.start < set) ∧
        exit.state.store = exit.state.completed.getLast?.elim store CompletedPass.store ∧
        (exit.error = none →
          (∀ c, (runPollLoop py clock store (firstPasses cycles (n + 1))).getLast? = some c →
            set ≤ c.start) ∧
          exit.state.clock = exit.state.completed.getLast?.elim clock fun c => max c.finish set) := by
  obtain ⟨exit, hreturns⟩ : ∃ exit, WhileLoop.Returns (loopTurn py (some set) cycles)
      (loopStart clock store) exit := exists_exit cycles clock set store hpoll
  obtain ⟨last, hreaches, hdone⟩ := WhileLoop.returns_iff.mp hreturns
  have hinv := loopInv_of_reaches hpoll.le hreaches
  refine ⟨exit, hreturns, ?_⟩
  rcases loopTurn_eq_done hdone with ⟨hset, rfl⟩ | ⟨hnot, e, hwait, rfl⟩
  · have hset' : set ≤ last.clock := by simpa [isSet] using hset
    refine ⟨⟨fun _ => ?_, fun _ => rfl⟩, fun e he => absurd he (by simp), last.completed.length,
      hinv.completed, fun c hc => ?_, ?_, fun _ => ⟨fun c hc => ?_, hinv.ended set rfl hset'⟩⟩
    -- a first wait that is refused does not return
    · by_contra hneither
      obtain ⟨htoo, hbefore⟩ := not_or.mp hneither
      have hraises : WhileLoop.Returns (loopTurn py (some set) cycles) (loopStart clock store)
          ⟨afterCycle py (some set) cycles (loopStart clock store), some timeoutTooLarge⟩ :=
        exit_of_refused (not_le.mp htoo) (not_le.mp hbefore)
      exact absurd (congrArg LoopExit.error (hreturns.unique hraises)) (by simp)
    · simpa [isSet] using hinv.started c hc
    · rw [hinv.onStore, loopEnd_store, ← hinv.completed]
    -- the next pass of the uninterrupted loop is past the event
    · rw [firstPasses_succ, runPollLoop_append] at hc
      have hc : (_ ++ [_]).getLast? = some c := hc
      rw [List.getLast?_concat, Option.some.injEq] at hc
      rw [← hc]
      exact hset'.trans hinv.le_next
  · obtain ⟨hpending, htoo, rfl⟩ := eventWait_eq_error hwait
    obtain rfl := refused_at_start hpoll.le hreaches hnot htoo
    obtain ⟨hcompleted, _, hstarted⟩ := afterCycle_spec hinv hnot
    refine ⟨⟨fun h => absurd h (by simp), fun h => ?_⟩, fun e he => ⟨(Option.some.inj he).symm, rfl⟩,
      1, hcompleted, fun c hc => ?_, rfl, fun h => absurd h (by simp)⟩
    · have hafter : clock + (cycles 0).timing.duration < set :=
        not_le.mp (of_decide_eq_false hpending)
      exact (h.elim (not_le.mpr htoo) (not_le.mpr hafter)).elim
    · simpa [isSet] using hstarted c hc

/-- A signal ten seconds into the first minute-long cycle of the reference deployment. -/
theorem shutdown_is_exact_reference :
    ∃ exit, WhileLoop.Returns (loopTurn Reference.platform (some (Reference.newYear + 10))
        fun _ => Reference.pass 0 'a' Reference.prompt)
        (loopStart Reference.newYear Reference.emptyStore) exit ∧
      exit.error = none ∧
      ∃ n, exit.state.completed = runPollLoop Reference.platform Reference.newYear
          Reference.emptyStore (firstPasses (fun _ => Reference.pass 0 'a' Reference.prompt) n) ∧
        exit.state.clock = exit.state.completed.getLast?.elim Reference.newYear
          (fun c => max c.finish (Reference.newYear + 10)) := by
  obtain ⟨exit, hreturns, herror, _, n, hcompleted, _, _, hexact⟩ :=
    @shutdown_is_exact _ Reference.platform Reference.config
      (fun _ => Reference.pass 0 'a' Reference.prompt) Reference.newYear (Reference.newYear + 10)
      Reference.emptyStore (by decide)
  have hnone := herror.mpr (Or.inl (by decide))
  exact ⟨exit, hreturns, hnone, n, hcompleted, (hexact hnone).2⟩

/-- Without a signal the loop goes on, however its cycles end, if its waits are accepted. -/
theorem never_returns_without_signal (hpoll : cfg.pollIntervalSeconds ≤ timeoutMax)
    (cycles : Nat → Pass cfg) (s : LoopState Bytes cfg) (exit : LoopExit Bytes cfg) :
    ¬ WhileLoop.Returns (loopTurn py none cycles) s exit := by
  intro h
  obtain ⟨last, _, hdone⟩ := WhileLoop.returns_iff.mp h
  rcases loopTurn_eq_done hdone with ⟨hset, _⟩ | ⟨_, e, hwait, _⟩
  · exact absurd hset (by simp [isSet])
  · exact absurd (eventWait_eq_error hwait).2.1 (not_lt.mpr hpoll)

end ArgoExporter.Main
