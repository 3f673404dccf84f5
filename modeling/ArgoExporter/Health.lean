/-
  ArgoExporter.Health

  `_HealthState` and the `/health` handler of `main.py`: what one request
  answers for a monotonic clock reading and the last recorded success.  Clock
  readings are finite floats.
-/

import ArgoExporter.Main
import ArgoExporter.Py.Datetime
import ArgoExporter.Py.Number

namespace ArgoExporter.Health

open ArgoExporter.Lib
open ArgoExporter.Py

/-! ## `_HealthState` -/

def healthStaleAfterMultiplier : Int := 2

/-- The numbers a `_HealthState` is made with. -/
structure HealthState where
  pollIntervalSeconds : Int
  staleAfterSeconds : Int

/-- `_HealthState(poll_interval_seconds, stale_after_seconds)`. -/
def HealthState.init (pollIntervalSeconds : Int) (staleAfterSeconds : Option Int) : HealthState :=
  ⟨pollIntervalSeconds, staleAfterSeconds.getD (pollIntervalSeconds * healthStaleAfterMultiplier)⟩

/-- The state `main` makes. -/
def HealthState.ofConfig (cfg : Config) : HealthState := .init cfg.pollIntervalSeconds none

/-- The attributes that the lock guards. -/
structure Heartbeat where
  lastSuccess : Option Rat
  lastSuccessWall : Option Rat

/-- After `reset`. -/
def Heartbeat.reset : Heartbeat := ⟨none, none⟩

/-- After `record_success` with these two clock readings. -/
def Heartbeat.recorded (now wallNow : Rat) : Heartbeat := ⟨some now, some wallNow⟩

/-! ## `_timestamp` -/

/-- 1970-01-01 in microseconds since 0001-01-01. -/
def epochMicros : Int := 62135596800000000

/-- `datetime.fromtimestamp(value, timezone.utc)`: the microseconds are those of the fractional part,
    a float product rounded half to even. -/
def fromtimestamp (value : Rat) : Except Exc Naive :=
  let whole := truncate value
  let micros := Binary64.roundHalfEven (Binary64.round ((value - whole) * microsPerSecond))
  match Naive.ofMicros? (epochMicros + whole * microsPerSecond + micros) with
  | some instant => .ok instant
  | none => raise .valueError "year is out of range"

def timestamp : Option Rat → Except Exc Json
  | none => .ok .null
  | some value => do return .str (strftime (← fromtimestamp value))

/-! ## `snapshot` -/

/-- `max(0.0, now - last_success)`. -/
def ageSeconds (now lastSuccess : Rat) : PyFloat :=
  let age := PyFloat.ofRat (now - lastSuccess)
  if (PyFloat.fin 0).lt age then age else .fin 0

/-- `age >= n` of a float and an int. -/
def reaches : PyFloat → Int → Bool
  | .fin x, n => n ≤ x
  | .inf negative, _ => !negative
  | .nan, _ => false

/-- `round(age, 3)`. -/
def round3 : PyFloat → PyFloat
  | .fin x => PyFloat.ofRat (Binary64.roundHalfEven (x * 1000) / 1000)
  | x => x

structure Response where
  code : Nat
  payload : Json

/-- What a request reports when it read the clock at `now` and found these attributes. -/
def HealthState.snapshot (state : HealthState) (now : Rat) (found : Heartbeat) :
    Except Exc Response :=
  match found.lastSuccess with
  | none => .ok ⟨503, .obj [("status", .str "starting"), ("last_success_at", .null)]⟩
  | some lastSuccess => do
      let age := ageSeconds now lastSuccess
      let stale := reaches age state.staleAfterSeconds
      let lastSuccessAt ← timestamp found.lastSuccessWall
      return ⟨if stale then 503 else 200,
        .obj [("status", .str (if stale then "stale" else "ok")),
          ("last_success_at", lastSuccessAt), ("age_seconds", .float (round3 age))]⟩

/-- Whether the request clears `_ready`: in every case but that of a young success. -/
def HealthState.clears (state : HealthState) (now : Rat) (found : Heartbeat) : Bool :=
  match found.lastSuccess with
  | none => true
  | some lastSuccess => reaches (ageSeconds now lastSuccess) state.staleAfterSeconds

/-! ## Age -/

/-- When an age is a number of seconds or more. -/
theorem reaches_ageSeconds_iff (now lastSuccess : Rat) (n : Int) :
    reaches (ageSeconds now lastSuccess) n = true ↔
      n ≤ 0 ∨ (n : Rat) ≤ Binary64.round (now - lastSuccess) ∨
        maxDouble ≤ Binary64.round (now - lastSuccess) := by
  have hmax : (0 : Rat) < maxDouble := by
    unfold maxDouble
    positivity
  unfold ageSeconds PyFloat.ofRat
  dsimp only
  by_cases hfin : |Binary64.round (now - lastSuccess)| < maxDouble
  · have hlt := (abs_lt.mp hfin).2
    rw [if_pos hfin]
    by_cases hpos : (0 : Rat) < Binary64.round (now - lastSuccess)
    · rw [if_pos (by simpa [PyFloat.lt] using hpos)]
      simp only [reaches, decide_eq_true_eq]
      constructor
      · exact fun h => Or.inr (Or.inl h)
      · rintro (h | h | h)
        · exact le_trans (by exact_mod_cast h) hpos.le
        · exact h
        · exact absurd h (not_le.mpr hlt)
    · rw [if_neg (by simpa [PyFloat.lt] using hpos)]
      simp only [reaches, decide_eq_true_eq]
      rw [not_lt] at hpos
      constructor
      · exact fun h => Or.inl (by exact_mod_cast h)
      · rintro (h | h | h)
        · exact_mod_cast h
        · exact h.trans hpos
        · exact absurd (h.trans hpos) (not_le.mpr hmax)
  · rw [if_neg hfin]
    rw [not_lt, le_abs] at hfin
    -- an age that overflows is past or before every number of seconds
    by_cases hneg : now - lastSuccess < 0
    · have hround := Binary64.round_nonpos hneg.le
      simp only [hneg, decide_true, PyFloat.lt, Bool.false_eq_true, if_false, reaches,
        decide_eq_true_eq]
      constructor
      · exact fun h => Or.inl (by exact_mod_cast h)
      · rintro (h | h | h)
        · exact_mod_cast h
        · exact h.trans hround
        · exact absurd (h.trans hround) (not_le.mpr hmax)
    · have hround := Binary64.round_nonneg (not_lt.mp hneg)
      have hlarge : maxDouble ≤ Binary64.round (now - lastSuccess) :=
        hfin.resolve_right fun h => by linarith
      simp [hneg, PyFloat.lt, reaches, hlarge]

example : reaches (ageSeconds (119999 / 1000) 100) 20 = false ∧
    reaches (ageSeconds 120 100) 20 = true := by decide +kernel

/-- At one clock reading a later success is not older. -/
theorem reaches_ageSeconds_anti {now earlier later : Rat} (h : earlier ≤ later) {n : Int}
    (hlater : reaches (ageSeconds now later) n = true) :
    reaches (ageSeconds now earlier) n = true := by
  rw [reaches_ageSeconds_iff] at hlater ⊢
  have hmax : (0 : Rat) < maxDouble := by
    unfold maxDouble
    positivity
  rcases le_or_gt 0 (now - later) with hpos | hneg
  · have hround := Binary64.round_mono hpos (show now - later ≤ now - earlier by linarith)
    exact hlater.imp_right fun hlater =>
      hlater.imp (fun h => h.trans hround) fun h => h.trans hround
  -- a success after the reading has no age
  · have hround := Binary64.round_nonpos hneg.le
    refine Or.inl ?_
    rcases hlater with hlater | hlater | hlater
    · exact hlater
    · exact_mod_cast hlater.trans hround
    · exact absurd (hlater.trans hround) (not_le.mpr hmax)

/-- The answer about a recorded success, unless its wall time has no date. -/
theorem HealthState.snapshot_recorded (state : HealthState) (now last wall : Rat) :
    (∃ e, state.snapshot now (.recorded last wall) = .error e) ∨
      ∃ response, state.snapshot now (.recorded last wall) = .ok response ∧
        (response.code = 200 ↔ state.clears now (.recorded last wall) = false) := by
  have hsnapshot : state.snapshot now (.recorded last wall) =
      timestamp (some wall) >>= fun lastSuccessAt =>
        .ok ⟨if reaches (ageSeconds now last) state.staleAfterSeconds then 503 else 200,
          .obj [("status", .str (if reaches (ageSeconds now last) state.staleAfterSeconds
              then "stale" else "ok")), ("last_success_at", lastSuccessAt),
            ("age_seconds", .float (round3 (ageSeconds now last)))]⟩ := rfl
  have hclears : state.clears now (.recorded last wall) =
      reaches (ageSeconds now last) state.staleAfterSeconds := rfl
  rw [hsnapshot, hclears]
  cases timestamp (some wall) with
  | error e => exact Or.inl ⟨e, rfl⟩
  | ok lastSuccessAt =>
      refine Or.inr ⟨_, rfl, ?_⟩
      cases reaches (ageSeconds now last) state.staleAfterSeconds <;> simp

/-! ## `do_GET` -/

/-- A GET of this path component, with the snapshot of the server's state if it has one. -/
def doGet (path : String) (snapshot : Option (Except Exc Response)) (ready : Bool) :
    Except Exc Response :=
  if path ≠ "/health" then .ok ⟨404, .obj [("status", .str "not_found")]⟩
  else
    match snapshot with
    | some response => response
    | none =>
        .ok ⟨if ready then 200 else 503,
          .obj [("status", .str (if ready then "ok" else "starting"))]⟩

/-- A server that has a state answers with its snapshot, whatever `_ready` says. -/
theorem doGet_health (response : Except Exc Response) (ready : Bool) :
    doGet "/health" (some response) ready = response := by
  rw [doGet, if_neg (not_not.mpr rfl)]

end ArgoExporter.Health
