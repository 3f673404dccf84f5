/-
  ArgoExporter.Health.Snapshots

  The poll loop records successes while any number of `/health` requests run.
  The clocks are read before the lock is taken and `_ready` is set after it is
  released, so the steps of the threads interleave in any order; still every
  request reports one success, the one that was newest when it took the lock.
-/

import ArgoExporter.Health
import ArgoExporter.Lib.AtomicRegister
import Mathlib.Logic.Function.Basic
import Mathlib.Logic.Relation

namespace ArgoExporter.Health

open ArgoExporter.Lib.AtomicRegister
open ArgoExporter.Py

/-! ## Threads -/

inductive Thread where
  | loop
  | request (n : ℕ)
  deriving DecidableEq

/-- Where `record_success` stands in the thread of the poll loop. -/
inductive Recording where
  | idle
  | gotNow (now : Rat)
  | gotWall (now wallNow : Rat)
  | locked (now wallNow : Rat)
  | setSuccess (now wallNow : Rat)
  | setWall (now wallNow : Rat)
  | released (now wallNow : Rat)

/-- Where `snapshot` stands in the thread of a request. -/
inductive Probing where
  | idle
  | gotNow (now : Rat)
  | locked (now : Rat)
  | gotSuccess (now : Rat) (lastSuccess : Option Rat)
  | gotWall (now : Rat) (found : Heartbeat)
  | released (now : Rat) (found : Heartbeat)
  | cleared (now : Rat) (found : Heartbeat)

/-- What a request answered, with the clock reading it used. -/
structure Report where
  now : Rat
  response : Except Exc Response

/-- The process: the monotonic clock, the lock's holder, the guarded attributes, `_ready`, the
    threads, and the trace of recorded successes, taken locks and answers, newest first. -/
structure Server where
  clock : Rat
  holder : Option Thread
  heartbeat : Heartbeat
  ready : Bool
  recording : Recording
  probing : ℕ → Probing
  trace : List (Event ℕ (Rat × Rat) Report)

/-- After `reset`, with no thread started. -/
def Server.start (clock : Rat) : Server :=
  ⟨clock, none, .reset, false, .idle, fun _ => .idle, []⟩

/-- Change where one request stands. -/
def Server.goto (s : Server) (n : ℕ) (probing : Probing) : Server :=
  { s with probing := Function.update s.probing n probing }

/-! ## Steps -/

/-- One step of `record_success`. -/
inductive RecordStep : Server → Server → Prop where
  | now {s : Server} (h : s.recording = .idle) :
      RecordStep s { s with recording := .gotNow s.clock }
  | wallNow {s : Server} {now : Rat} (wallNow : Rat) (h : s.recording = .gotNow now) :
      RecordStep s { s with recording := .gotWall now wallNow }
  | acquire {s : Server} {now wallNow : Rat} (h : s.recording = .gotWall now wallNow)
      (hfree : s.holder = none) :
      RecordStep s { s with holder := some .loop, recording := .locked now wallNow }
  | setSuccess {s : Server} {now wallNow : Rat} (h : s.recording = .locked now wallNow) :
      RecordStep s { s with
        heartbeat := ⟨some now, s.heartbeat.lastSuccessWall⟩
        recording := .setSuccess now wallNow }
  | setWall {s : Server} {now wallNow : Rat} (h : s.recording = .setSuccess now wallNow) :
      RecordStep s { s with
        heartbeat := ⟨s.heartbeat.lastSuccess, some wallNow⟩
        recording := .setWall now wallNow }
  | release {s : Server} {now wallNow : Rat} (h : s.recording = .setWall now wallNow) :
      RecordStep s { s with
        holder := none
        recording := .released now wallNow
        trace := .write (now, wallNow) :: s.trace }
  | setReady {s : Server} {now wallNow : Rat} (h : s.recording = .released now wallNow) :
      RecordStep s { s with ready := true, recording := .idle }

/-- One step of the `do_GET` of request `n`, most of them in `snapshot`. -/
inductive ProbeStep (state : HealthState) (n : ℕ) : Server → Server → Prop where
  | now {s : Server} (h : s.probing n = .idle) : ProbeStep state n s (s.goto n (.gotNow s.clock))
  | acquire {s : Server} {now : Rat} (h : s.probing n = .gotNow now) (hfree : s.holder = none) :
      ProbeStep state n s { s.goto n (.locked now) with
        holder := some (.request n), trace := .ask n :: s.trace }
  | lastSuccess {s : Server} {now : Rat} (h : s.probing n = .locked now) :
      ProbeStep state n s (s.goto n (.gotSuccess now s.heartbeat.lastSuccess))
  | lastSuccessWall {s : Server} {now : Rat} {lastSuccess : Option Rat}
      (h : s.probing n = .gotSuccess now lastSuccess) :
      ProbeStep state n s (s.goto n (.gotWall now ⟨lastSuccess, s.heartbeat.lastSuccessWall⟩))
  | release {s : Server} {now : Rat} {found : Heartbeat} (h : s.probing n = .gotWall now found) :
      ProbeStep state n s { s.goto n (.released now found) with holder := none }
  | clear {s : Server} {now : Rat} {found : Heartbeat} (h : s.probing n = .released now found)
      (hclears : state.clears now found = true) :
      ProbeStep state n s { s.goto n (.cleared now found) with ready := false }
  | answer {s : Server} {now : Rat} {found : Heartbeat}
      (h : s.probing n = .cleared now found ∨
        s.probing n = .released now found ∧ state.clears now found = false) :
      ProbeStep state n s { s.goto n .idle with
        trace := .answer n ⟨now, doGet "/health" (some (state.snapshot now found)) s.ready⟩ ::
          s.trace }

/-- Time passes, the poll loop takes a step or a request does. -/
inductive Step (state : HealthState) : Server → Server → Prop where
  | tick {s : Server} (clock : Rat) (h : s.clock ≤ clock) : Step state s { s with clock := clock }
  | record {s s' : Server} (h : RecordStep s s') : Step state s s'
  | probe {s s' : Server} (n : ℕ) (h : ProbeStep state n s s') : Step state s s'

/-- The states of any run of a server that starts at some time. -/
def Reachable (state : HealthState) (s : Server) : Prop :=
  ∃ clock, Relation.ReflTransGen (Step state) (Server.start clock) s

/-! ## Locked sections -/

/-- The attributes after the newest recorded success. -/
def heartbeatOf : Option (Rat × Rat) → Heartbeat
  | none => .reset
  | some (now, wallNow) => .recorded now wallNow

/-- The report that is right for a request, given the newest success when it took the lock. -/
def IsReport (state : HealthState) (newest : Option (Rat × Rat)) (report : Report) : Prop :=
  report.response = state.snapshot report.now (heartbeatOf newest)

def Recording.holds : Recording → Bool
  | .locked _ _ | .setSuccess _ _ | .setWall _ _ => true
  | _ => false

def Probing.holds : Probing → Bool
  | .locked _ | .gotSuccess _ _ | .gotWall _ _ => true
  | _ => false

/-- The attributes, given the newest recorded success and where `record_success` stands. -/
def Recording.heartbeat (newest : Option (Rat × Rat)) : Recording → Heartbeat
  | .setSuccess now _ => ⟨some now, (heartbeatOf newest).lastSuccessWall⟩
  | .setWall now wallNow => .recorded now wallNow
  | _ => heartbeatOf newest

/-- The clock reading of a success that is not in the trace yet. -/
def Recording.pending : Recording → Option Rat
  | .gotNow now | .gotWall now _ | .locked now _ | .setSuccess now _ | .setWall now _ => some now
  | _ => none

/-- What a request has read, given the newest success when it took the lock. -/
def Probing.Fits (newest : Option (Rat × Rat)) : Probing → Prop
  | .gotSuccess _ lastSuccess => lastSuccess = (heartbeatOf newest).lastSuccess
  | .gotWall _ found | .released _ found | .cleared _ found => found = heartbeatOf newest
  | _ => True

/-- The invariant of the process. -/
structure ServerInv (state : HealthState) (s : Server) : Prop where
  loopHolds : s.recording.holds = true ↔ s.holder = some .loop
  requestHolds : ∀ n, (s.probing n).holds = true ↔ s.holder = some (.request n)
  heartbeat : s.heartbeat = s.recording.heartbeat (writes s.trace).head?
  -- nobody records a success while a request has the lock
  locked : ∀ n, s.holder = some (.request n) → known n s.trace = writes s.trace
  fits : ∀ n, (s.probing n).Fits (known n s.trace).head?
  recorded : ∀ now wallNow, s.recording = .released now wallNow → writes s.trace ≠ []
  ready : s.ready = true → writes s.trace ≠ []
  pending : ∀ now, s.recording.pending = some now →
    now ≤ s.clock ∧ ∀ w ∈ writes s.trace, w.1 ≤ now
  past : ∀ w ∈ writes s.trace, w.1 ≤ s.clock
  ordered : (writes s.trace).Pairwise (fun later earlier => earlier.1 ≤ later.1)
  atomic : Atomic (IsReport state) (fun _ _ => False) s.trace

variable {state : HealthState}

theorem serverInv_start (clock : Rat) : ServerInv state (Server.start clock) where
  loopHolds := by simp [Server.start, Recording.holds]
  requestHolds n := by simp [Server.start, Probing.holds]
  heartbeat := rfl
  locked n h := absurd h (by simp [Server.start])
  fits n := trivial
  recorded now wallNow h := absurd h (by simp [Server.start])
  ready h := absurd h (by simp [Server.start])
  pending now h := absurd h (by simp [Server.start, Recording.pending])
  past w h := absurd h (by simp [Server.start, writes])
  ordered := .nil
  atomic := .nil

/-! ## Requests -/

section Requests

variable {s : Server} {n : ℕ}

theorem goto_probing (s : Server) (n : ℕ) (p : Probing) : (s.goto n p).probing n = p :=
  Function.update_self ..

theorem goto_probing_of_ne (s : Server) {n m : ℕ} (p : Probing) (h : m ≠ n) :
    (s.goto n p).probing m = s.probing m := Function.update_of_ne h ..

/-- A request goes on without taking or releasing the lock. -/
theorem ServerInv.goto (h : ServerInv state s) {p : Probing}
    (hholds : p.holds = (s.probing n).holds) (hfits : p.Fits (known n s.trace).head?) :
    ServerInv state (s.goto n p) where
  loopHolds := h.loopHolds
  requestHolds m := by
    by_cases hm : m = n
    · subst hm
      rw [goto_probing, hholds]
      exact h.requestHolds m
    · rw [goto_probing_of_ne s p hm]
      exact h.requestHolds m
  heartbeat := h.heartbeat
  locked := h.locked
  fits m := by
    by_cases hm : m = n
    · subst hm
      rw [goto_probing]
      exact hfits
    · rw [goto_probing_of_ne s p hm]
      exact h.fits m
  recorded := h.recorded
  ready := h.ready
  pending := h.pending
  past := h.past
  ordered := h.ordered
  atomic := h.atomic

/-- A request takes the free lock: from here on it knows all successes recorded so far. -/
theorem ServerInv.acquire (h : ServerInv state s) {now : Rat} (hfree : s.holder = none) :
    ServerInv state { s.goto n (.locked now) with
      holder := some (.request n), trace := .ask n :: s.trace } where
  loopHolds := by
    have hloop := h.loopHolds
    rw [hfree] at hloop
    show s.recording.holds = true ↔ _
    simpa using hloop
  requestHolds m := by
    show ((s.goto n (.locked now)).probing m).holds = true ↔ _
    by_cases hm : m = n
    · subst hm
      simp [goto_probing, Probing.holds]
    · have hrequest := h.requestHolds m
      rw [hfree] at hrequest
      rw [goto_probing_of_ne s _ hm, hrequest]
      simp [Ne.symm hm]
  heartbeat := h.heartbeat
  locked m hm := by
    have hsame : n = m := by simpa using hm
    subst hsame
    exact if_pos rfl
  fits m := by
    show ((s.goto n (.locked now)).probing m).Fits _
    by_cases hm : m = n
    · subst hm
      rw [goto_probing]
      trivial
    · rw [goto_probing_of_ne s _ hm]
      show (s.probing m).Fits (if n = m then _ else known m s.trace).head?
      rw [if_neg (Ne.symm hm)]
      exact h.fits m
  recorded := h.recorded
  ready := h.ready
  pending := h.pending
  past := h.past
  ordered := h.ordered
  atomic := h.atomic.ask n

/-- Under the lock the attributes are those of the newest success the request knows. -/
theorem ServerInv.read (h : ServerInv state s) (hholds : (s.probing n).holds = true) :
    s.heartbeat = heartbeatOf (known n s.trace).head? := by
  have hholder := (h.requestHolds n).mp hholds
  have hloop : s.recording.holds ≠ true := by
    rw [ne_eq, h.loopHolds, hholder]
    simp
  rw [h.locked n hholder, h.heartbeat]
  cases hr : s.recording with
  | setSuccess now wallNow =>
      rw [hr] at hloop
      exact absurd rfl hloop
  | setWall now wallNow =>
      rw [hr] at hloop
      exact absurd rfl hloop
  | idle => rfl
  | gotNow now => rfl
  | gotWall now wallNow => rfl
  | locked now wallNow => rfl
  | released now wallNow => rfl

theorem ServerInv.release (h : ServerInv state s) {now : Rat} {found : Heartbeat}
    (hread : s.probing n = .gotWall now found) :
    ServerInv state { s.goto n (.released now found) with holder := none } where
  loopHolds := by
    have hholder := (h.requestHolds n).mp (by rw [hread]; rfl)
    have hloop := h.loopHolds
    rw [hholder] at hloop
    show s.recording.holds = true ↔ _
    simpa using hloop
  requestHolds m := by
    show ((s.goto n (.released now found)).probing m).holds = true ↔ _
    by_cases hm : m = n
    · subst hm
      simp [goto_probing, Probing.holds]
    · have hholder := (h.requestHolds n).mp (by rw [hread]; rfl)
      have hrequest := h.requestHolds m
      rw [hholder] at hrequest
      rw [goto_probing_of_ne s _ hm, hrequest]
      simp [Ne.symm hm]
  heartbeat := h.heartbeat
  locked m hm := absurd hm (by simp)
  fits m := by
    have hfits := h.fits m
    by_cases hm : m = n
    · subst hm
      rw [hread] at hfits
      show ((s.goto m (.released now found)).probing m).Fits _
      rw [goto_probing]
      exact hfits
    · show ((s.goto n (.released now found)).probing m).Fits _
      rw [goto_probing_of_ne s _ hm]
      exact hfits
  recorded := h.recorded
  ready := h.ready
  pending := h.pending
  past := h.past
  ordered := h.ordered
  atomic := h.atomic

theorem ServerInv.clear (h : ServerInv state s) : ServerInv state { s with ready := false } where
  loopHolds := h.loopHolds
  requestHolds := h.requestHolds
  heartbeat := h.heartbeat
  locked := h.locked
  fits := h.fits
  recorded := h.recorded
  ready hready := absurd hready (by simp)
  pending := h.pending
  past := h.past
  ordered := h.ordered
  atomic := h.atomic

/-- A request answers with the success it knows. -/
theorem ServerInv.answer (h : ServerInv state s) {now : Rat} {found : Heartbeat}
    (hholds : (s.probing n).holds = false) (hfound : found = heartbeatOf (known n s.trace).head?) :
    ServerInv state { s.goto n .idle with
      trace := .answer n ⟨now, doGet "/health" (some (state.snapshot now found)) s.ready⟩ ::
        s.trace } := by
  have hidle : ServerInv state (s.goto n .idle) := h.goto (by rw [hholds]; rfl) trivial
  exact {
    loopHolds := hidle.loopHolds
    requestHolds := hidle.requestHolds
    heartbeat := hidle.heartbeat
    locked := hidle.locked
    fits := hidle.fits
    recorded := hidle.recorded
    ready := hidle.ready
    pending := hidle.pending
    past := hidle.past
    ordered := hidle.ordered
    atomic := hidle.atomic.answer (Or.inl (by
      unfold IsReport
      dsimp only
      rw [doGet_health, hfound]
      rfl)) }

theorem probeStep_inv {s' : Server} (h : ServerInv state s) (hstep : ProbeStep state n s s') :
    ServerInv state s' := by
  have hfits := h.fits n
  cases hstep with
  | now hidle => exact h.goto (by rw [hidle]; rfl) trivial
  | acquire hgot hfree => exact h.acquire hfree
  | lastSuccess hlocked =>
      refine h.goto (by rw [hlocked]; rfl) ?_
      show s.heartbeat.lastSuccess = _
      rw [h.read (n := n) (by rw [hlocked]; rfl)]
  | lastSuccessWall hgot =>
      refine h.goto (by rw [hgot]; rfl) ?_
      rw [hgot] at hfits
      show (⟨_, s.heartbeat.lastSuccessWall⟩ : Heartbeat) = _
      rw [h.read (n := n) (by rw [hgot]; rfl), show _ = _ from hfits]
  | release hgot => exact h.release hgot
  | @clear now found hreleased hclears =>
      rw [hreleased] at hfits
      have hgoto : ServerInv state (s.goto n (.cleared now found)) :=
        h.goto (by rw [hreleased]; rfl) hfits
      exact hgoto.clear
  | answer hread =>
      rcases hread with hcleared | ⟨hreleased, _⟩
      · rw [hcleared] at hfits
        exact h.answer (by rw [hcleared]; rfl) hfits
      · rw [hreleased] at hfits
        exact h.answer (by rw [hreleased]; rfl) hfits

end Requests

/-! ## The poll loop -/

section Loop

variable {s : Server}

/-- `record_success` goes on without taking or releasing the lock. -/
theorem ServerInv.record (h : ServerInv state s) {r : Recording} {heartbeat : Heartbeat}
    (hholds : r.holds = s.recording.holds)
    (hheartbeat : heartbeat = r.heartbeat (writes s.trace).head?)
    (hpending : ∀ now, r.pending = some now →
      now = s.clock ∨ s.recording.pending = some now)
    (hrecorded : ∀ now wallNow, r ≠ .released now wallNow) :
    ServerInv state { s with heartbeat := heartbeat, recording := r } where
  loopHolds := by
    show r.holds = true ↔ _
    rw [hholds]
    exact h.loopHolds
  requestHolds := h.requestHolds
  heartbeat := hheartbeat
  locked := h.locked
  fits := h.fits
  recorded now wallNow hr := absurd hr (hrecorded now wallNow)
  ready := h.ready
  pending now hnow := by
    rcases hpending now hnow with rfl | hnow
    · exact ⟨le_refl _, h.past⟩
    · exact h.pending now hnow
  past := h.past
  ordered := h.ordered
  atomic := h.atomic

theorem ServerInv.loopAcquire (h : ServerInv state s) {now wallNow : Rat}
    (hgot : s.recording = .gotWall now wallNow) (hfree : s.holder = none) :
    ServerInv state { s with holder := some .loop, recording := .locked now wallNow } where
  loopHolds := by simp [Recording.holds]
  requestHolds n := by
    have hrequest := h.requestHolds n
    rw [hfree] at hrequest
    simpa using hrequest
  heartbeat := by
    have hheartbeat := h.heartbeat
    rw [hgot] at hheartbeat
    exact hheartbeat
  locked n hn := absurd hn (by simp)
  fits := h.fits
  recorded now' wallNow' hr := absurd hr (by simp)
  ready := h.ready
  pending now' hnow := h.pending now' (by rw [hgot]; exact hnow)
  past := h.past
  ordered := h.ordered
  atomic := h.atomic

/-- The lock is released with both attributes set: the success is recorded. -/
theorem ServerInv.loopRelease (h : ServerInv state s) {now wallNow : Rat}
    (hset : s.recording = .setWall now wallNow) :
    ServerInv state { s with
      holder := none
      recording := .released now wallNow
      trace := .write (now, wallNow) :: s.trace } := by
  have hholder : s.holder = some .loop := h.loopHolds.mp (by rw [hset]; rfl)
  obtain ⟨hclock, hlatest⟩ := h.pending now (by rw [hset]; rfl)
  exact {
    loopHolds := by simp [Recording.holds]
    requestHolds := fun n => by
      have hrequest := h.requestHolds n
      rw [hholder] at hrequest
      simpa using hrequest
    heartbeat := by
      have hheartbeat := h.heartbeat
      rw [hset] at hheartbeat
      exact hheartbeat
    locked := fun n hn => absurd hn (by simp)
    fits := h.fits
    recorded := fun _ _ _ => List.cons_ne_nil _ _
    ready := fun _ => List.cons_ne_nil _ _
    pending := fun now' hnow => absurd hnow (by simp [Recording.pending])
    past := List.forall_mem_cons.mpr ⟨hclock, h.past⟩
    ordered := List.pairwise_cons.mpr ⟨hlatest, h.ordered⟩
    atomic := h.atomic.write (now, wallNow) }

theorem ServerInv.setReady (h : ServerInv state s) {now wallNow : Rat}
    (hreleased : s.recording = .released now wallNow) :
    ServerInv state { s with ready := true, recording := .idle } where
  loopHolds := by
    have hloop := h.loopHolds
    rw [hreleased] at hloop
    exact hloop
  requestHolds := h.requestHolds
  heartbeat := by
    have hheartbeat := h.heartbeat
    rw [hreleased] at hheartbeat
    exact hheartbeat
  locked := h.locked
  fits := h.fits
  recorded now' wallNow' hr := absurd hr (by simp)
  ready _ := h.recorded now wallNow hreleased
  pending now' hnow := absurd hnow (by simp [Recording.pending])
  past := h.past
  ordered := h.ordered
  atomic := h.atomic

theorem recordStep_inv {s' : Server} (h : ServerInv state s) (hstep : RecordStep s s') :
    ServerInv state s' := by
  have hheartbeat := h.heartbeat
  cases hstep with
  | now hidle =>
      rw [hidle] at hheartbeat
      refine h.record (by rw [hidle]; rfl) hheartbeat (fun now hnow => Or.inl ?_) (by simp)
      exact (Option.some.inj hnow).symm
  | wallNow wallNow hgot =>
      rw [hgot] at hheartbeat
      refine h.record (by rw [hgot]; rfl) hheartbeat (fun now hnow => Or.inr ?_) (by simp)
      rw [hgot]
      exact hnow
  | acquire hgot hfree => exact h.loopAcquire hgot hfree
  | setSuccess hlocked =>
      refine h.record (by rw [hlocked]; rfl) ?_ (fun now hnow => Or.inr ?_) (by simp)
      · rw [hheartbeat, hlocked]
        rfl
      · rw [hlocked]
        exact hnow
  | setWall hset =>
      refine h.record (by rw [hset]; rfl) ?_ (fun now hnow => Or.inr ?_) (by simp)
      · rw [hheartbeat, hset]
        rfl
      · rw [hset]
        exact hnow
  | release hset => exact h.loopRelease hset
  | setReady hreleased => exact h.setReady hreleased

end Loop

/-! ## Runs -/

theorem ServerInv.tick {s : Server} (h : ServerInv state s) {clock : Rat} (hclock : s.clock ≤ clock) :
    ServerInv state { s with clock := clock } where
  loopHolds := h.loopHolds
  requestHolds := h.requestHolds
  heartbeat := h.heartbeat
  locked := h.locked
  fits := h.fits
  recorded := h.recorded
  ready := h.ready
  pending now hnow := ⟨(h.pending now hnow).1.trans hclock, (h.pending now hnow).2⟩
  past w hw := (h.past w hw).trans hclock
  ordered := h.ordered
  atomic := h.atomic

theorem reachable_inv {s : Server} (h : Reachable state s) : ServerInv state s := by
  obtain ⟨clock, hrun⟩ := h
  induction hrun with
  | refl => exact serverInv_start clock
  | tail _ hstep ih =>
      cases hstep with
      | tick clock' hclock => exact ih.tick hclock
      | record hrecord => exact recordStep_inv ih hrecord
      | probe n hprobe => exact probeStep_inv ih hprobe

/-- However the threads interleave, each request reports the success that was newest when it took
    the lock, both of its clock readings; successes have monotonic readings in the order in which
    they were recorded; and `_ready` is not set before the first of them. -/
theorem snapshots_are_atomic {s : Server} (h : Reachable state s) :
    Atomic (IsReport state) (fun _ _ => False) s.trace ∧
      (writes s.trace).Pairwise (fun later earlier => earlier.1 ≤ later.1) ∧
      (s.ready = true → writes s.trace ≠ []) := by
  have hinv := reachable_inv h
  exact ⟨hinv.atomic, hinv.ordered, hinv.ready⟩

/-- One success and one request about it. -/
theorem snapshots_are_atomic_reference :
    ∃ s : Server, Reachable (.init 10 none) s ∧
      (answers 7 s.trace).map Report.now = [0] ∧ writes s.trace = [(0, 1767225600)] ∧
      Atomic (IsReport (.init 10 none)) (fun _ _ => False) s.trace ∧
      (writes s.trace).Pairwise (fun later earlier => earlier.1 ≤ later.1) ∧
      (s.ready = true → writes s.trace ≠ []) := by
  have hrun : Relation.ReflTransGen (Step (.init 10 none)) (Server.start 0) _ := .refl
  have hrun := hrun.tail (.record (.now rfl))
  have hrun := hrun.tail (.record (.wallNow 1767225600 rfl))
  have hrun := hrun.tail (.record (.acquire rfl rfl))
  -- the request reads its clock while the lock is taken
  have hrun := hrun.tail (.probe 7 (.now rfl))
  have hrun := hrun.tail (.record (.setSuccess rfl))
  have hrun := hrun.tail (.record (.setWall rfl))
  have hrun := hrun.tail (.record (.release rfl))
  have hrun := hrun.tail (.probe 7 (.acquire rfl rfl))
  have hrun := hrun.tail (.probe 7 (.lastSuccess rfl))
  have hrun := hrun.tail (.probe 7 (.lastSuccessWall rfl))
  have hrun := hrun.tail (.probe 7 (.release rfl))
  have hrun := hrun.tail (.probe 7 (.answer (Or.inr ⟨rfl, by decide +kernel⟩)))
  exact ⟨_, ⟨0, hrun⟩, rfl, rfl, snapshots_are_atomic ⟨0, hrun⟩⟩

/-! ## Sequential requests -/

/-- When a request takes the lock after another one has answered about a success, it answers about
    that success or a later one; and while the first success is still young at its own clock reading
    it answers 200, unless the wall time it would print has no date. -/
theorem later_request_never_goes_back {s : Server} (h : Reachable state s) {first second : ℕ}
    {a b : Report} (latest meanwhile between earlier : List (Event ℕ (Rat × Rat) Report))
    (htrace : s.trace = latest ++
      (.answer second b :: meanwhile ++ .ask second :: between ++ .answer first a :: earlier))
    (ha : a.response ≠ state.snapshot a.now .reset) :
    ∃ old ∈ writes s.trace, ∃ new ∈ writes s.trace, old.1 ≤ new.1 ∧
      IsReport state (some old) a ∧ IsReport state (some new) b ∧
      (state.clears b.now (heartbeatOf (some old)) = false →
        ∀ response, b.response = .ok response → response.code = 200) := by
  have hinv := reachable_inv h
  have hatomic := hinv.atomic
  have hordered := hinv.ordered
  rw [htrace] at hatomic hordered
  obtain ⟨known₁, known₂, hsuffix, hnewest, hright₁, hright₂⟩ :=
    hatomic.of_append.no_inversion (fun _ => not_false) (fun _ => not_false)
  -- the first request knew a success, so the second one did
  obtain ⟨old, before, rfl⟩ : ∃ old before, known₁ = old :: before := by
    cases known₁ with
    | nil => exact absurd hright₁ ha
    | cons old before => exact ⟨old, before, rfl⟩
  obtain ⟨new, rest, rfl⟩ : ∃ new rest, known₂ = new :: rest := by
    cases known₂ with
    | nil => exact absurd (List.suffix_nil.mp hsuffix) (List.cons_ne_nil _ _)
    | cons new rest => exact ⟨new, rest, rfl⟩
  have hrecorded : List.Sublist (new :: rest) (writes (latest ++
      (.answer second b :: meanwhile ++ .ask second :: between ++ .answer first a :: earlier))) := by
    rw [writes_append]
    exact hnewest.sublist.trans (List.sublist_append_right _ _)
  have hle : old.1 ≤ new.1 := by
    have hknown : (new :: rest).Pairwise (fun later earlier : Rat × Rat => earlier.1 ≤ later.1) :=
      hordered.sublist hrecorded
    rcases List.mem_cons.mp (hsuffix.subset List.mem_cons_self) with rfl | hmem
    · exact le_refl _
    · exact List.rel_of_pairwise_cons hknown hmem
  have hold : old ∈ new :: rest := hsuffix.subset List.mem_cons_self
  rw [htrace]
  refine ⟨old, hrecorded.subset hold, new, hrecorded.subset List.mem_cons_self, hle, hright₁,
    hright₂, fun hyoung response hresponse => ?_⟩
  have hclears : state.clears b.now (.recorded new.1 new.2) = false := by
    cases hnew : state.clears b.now (.recorded new.1 new.2) with
    | false => rfl
    | true =>
        have hold : state.clears b.now (heartbeatOf (some old)) = true :=
          reaches_ageSeconds_anti hle hnew
        exact absurd (hold.symm.trans hyoung) (by simp)
  have hreport : b.response = state.snapshot b.now (.recorded new.1 new.2) := hright₂
  rcases state.snapshot_recorded b.now new.1 new.2 with ⟨e, herror⟩ | ⟨found, hok, hcode⟩
  · rw [hreport, herror] at hresponse
    exact absurd hresponse (by simp)
  · rw [hreport, hok, Except.ok.injEq] at hresponse
    rw [← hresponse]
    exact hcode.mpr hclears

/-- Two requests about one success, nine seconds apart. -/
theorem later_request_never_goes_back_reference :
    ∃ (s : Server) (a b : Report), Reachable (.init 10 none) s ∧
      answers 0 s.trace = [a] ∧ answers 1 s.trace = [b] ∧
      ∃ old ∈ writes s.trace, ∃ new ∈ writes s.trace, old.1 ≤ new.1 ∧
        IsReport (.init 10 none) (some old) a ∧ IsReport (.init 10 none) (some new) b ∧
        ((HealthState.init 10 none).clears b.now (heartbeatOf (some old)) = false →
          ∀ response, b.response = .ok response → response.code = 200) := by
  have hrun : Relation.ReflTransGen (Step (.init 10 none)) (Server.start 0) _ := .refl
  have hrun := hrun.tail (.record (.now rfl))
  have hrun := hrun.tail (.record (.wallNow 1767225600 rfl))
  have hrun := hrun.tail (.record (.acquire rfl rfl))
  have hrun := hrun.tail (.record (.setSuccess rfl))
  have hrun := hrun.tail (.record (.setWall rfl))
  have hrun := hrun.tail (.record (.release rfl))
  have hrun := hrun.tail (.probe 0 (.now rfl))
  have hrun := hrun.tail (.probe 0 (.acquire rfl rfl))
  have hrun := hrun.tail (.probe 0 (.lastSuccess rfl))
  have hrun := hrun.tail (.probe 0 (.lastSuccessWall rfl))
  have hrun := hrun.tail (.probe 0 (.release rfl))
  have hrun := hrun.tail (.probe 0 (.answer (Or.inr ⟨rfl, by decide +kernel⟩)))
  have hrun := hrun.tail (.tick 9 (show (0 : Rat) ≤ 9 by norm_num))
  have hrun := hrun.tail (.probe 1 (.now rfl))
  have hrun := hrun.tail (.probe 1 (.acquire rfl rfl))
  have hrun := hrun.tail (.probe 1 (.lastSuccess rfl))
  have hrun := hrun.tail (.probe 1 (.lastSuccessWall rfl))
  have hrun := hrun.tail (.probe 1 (.release rfl))
  have hrun := hrun.tail (.probe 1 (.answer (Or.inr ⟨rfl, by decide +kernel⟩)))
  have hstarting : (HealthState.init 10 none).snapshot 0 (.recorded 0 1767225600) ≠
      (HealthState.init 10 none).snapshot 0 .reset := by
    rcases (HealthState.init 10 none).snapshot_recorded 0 0 1767225600 with
      ⟨e, herror⟩ | ⟨response, hok, hcode⟩
    · rw [herror]
      simp [HealthState.snapshot, Heartbeat.reset]
    · rw [hok]
      intro h
      rw [Except.ok.inj h] at hcode
      exact absurd (hcode.mpr (by decide +kernel)) (by simp)
  exact ⟨_, _, _, ⟨0, hrun⟩, rfl, rfl,
    later_request_never_goes_back ⟨0, hrun⟩ [] [] [] _ rfl hstarting⟩

end ArgoExporter.Health
