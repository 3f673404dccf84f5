/-
  ArgoExporter.Lib.ExpiringRegister

  A register that is written at some steps and dropped at the first step that
  no longer keeps it.  Run step by step, it holds exactly the last value
  written if the last step keeps it, since the start of its unbroken series.
-/

import Mathlib.Data.Option.Basic
import Mathlib.Order.Basic

namespace ArgoExporter.Lib.ExpiringRegister

variable {α : Type}

/-- What the register holds: a value, the step its series began, and the step it was written. -/
@[ext]
structure Entry (α : Type) where
  value : α
  first : Nat
  last : Nat

/-! ## Step by step -/

section Register

variable (keeps : Nat → Nat → Prop) [DecidableRel keeps] (obs : Nat → Option α)

/-- Step `n`: a write replaces the value and continues the series, no write drops an entry that
    step `n` does not keep. -/
def step (previous : Option (Entry α)) (n : Nat) : Option (Entry α) :=
  match obs n with
  | some x => some ⟨x, (previous.map Entry.first).getD n, n⟩
  | none => previous.filter fun e => keeps e.last n

/-- The register after the first `n` steps. -/
def run : Nat → Option (Entry α)
  | 0 => none
  | n + 1 => step keeps obs (run n) n

/-! ## The history it stands for -/

/-- Step `a` is the last of the first `n` that writes, and writes `x`. -/
structure IsLast (n a : Nat) (x : α) : Prop where
  before : a < n
  written : obs a = some x
  silent : ∀ i, a < i → i < n → obs i = none

/-- Two writes with none between them. -/
structure Consecutive (a b : Nat) : Prop where
  lt : a < b
  left : (obs a).isSome = true
  right : (obs b).isSome = true
  silent : ∀ i, a < i → i < b → obs i = none

/-- Between two consecutive writes from `j` on, every step keeps the earlier one. -/
def Unbroken (n j : Nat) : Prop :=
  ∀ a b, j ≤ a → b < n → Consecutive obs a b → ∀ i, a < i → i < b → keeps a i

/-- `j` is the earliest write from which the series is unbroken. -/
structure IsStart (n j : Nat) : Prop where
  before : j < n
  written : (obs j).isSome = true
  unbroken : Unbroken keeps obs n j
  earliest : ∀ j' < n, (obs j').isSome = true → Unbroken keeps obs n j' → j ≤ j'

/-- The register after `n` steps is what the history says. -/
def Accounts (n : Nat) : Option (Entry α) → Prop
  | none => ∀ a x, IsLast obs n a x → ¬ keeps a (n - 1)
  | some e => IsLast obs n e.last e.value ∧ keeps e.last (n - 1) ∧ IsStart keeps obs n e.first

end Register

/-! ## Facts about histories -/

section History

variable {keeps : Nat → Nat → Prop} {obs : Nat → Option α} {n a j : Nat} {x : α}

theorem IsLast.unique {a' : Nat} {x' : α} (h : IsLast obs n a x) (h' : IsLast obs n a' x') :
    a = a' ∧ x = x' := by
  have haa' : a = a' := by
    rcases Nat.lt_trichotomy a a' with hlt | heq | hgt
    · exact absurd ((h.silent a' hlt h'.before).symm.trans h'.written) (by simp)
    · exact heq
    · exact absurd ((h'.silent a hgt h.before).symm.trans h.written) (by simp)
  subst haa'
  exact ⟨rfl, Option.some.inj (h.written.symm.trans h'.written)⟩

theorem IsLast.of_write (h : obs n = some x) : IsLast obs (n + 1) n x :=
  ⟨Nat.lt_succ_self n, h, fun i hi hi' => by omega⟩

/-- A step without a write leaves the last write as it was. -/
theorem isLast_succ_iff (h : obs n = none) : IsLast obs (n + 1) a x ↔ IsLast obs n a x := by
  constructor
  · intro hlast
    have hne : a ≠ n := by
      rintro rfl
      exact absurd (h.symm.trans hlast.written) (by simp)
    have hbefore := hlast.before
    exact ⟨by omega, hlast.written, fun i hi hi' => hlast.silent i hi (Nat.lt_succ_of_lt hi')⟩
  · intro hlast
    refine ⟨Nat.lt_succ_of_lt hlast.before, hlast.written, fun i hi hi' => ?_⟩
    rcases Nat.lt_succ_iff_lt_or_eq.mp hi' with hlt | rfl
    · exact hlast.silent i hi hlt
    · exact h

/-- From any write on there is a last one. -/
theorem exists_isLast (hwritten : (obs j).isSome = true) (hj : j < n) :
    ∃ a x, j ≤ a ∧ IsLast obs n a x := by
  induction n with
  | zero => exact absurd hj (Nat.not_lt_zero j)
  | succ n ih =>
      cases hobs : obs n with
      | some x => exact ⟨n, x, Nat.lt_succ_iff.mp hj, .of_write hobs⟩
      | none =>
          have hne : j ≠ n := by
            rintro rfl
            rw [hobs] at hwritten
            exact absurd hwritten (by simp)
          obtain ⟨a, x, hja, hlast⟩ := ih (by omega)
          exact ⟨a, x, hja, (isLast_succ_iff hobs).mpr hlast⟩

theorem Unbroken.mono {m : Nat} (h : Unbroken keeps obs n j) (hm : m ≤ n) :
    Unbroken keeps obs m j :=
  fun a b ha hb => h a b ha (Nat.lt_of_lt_of_le hb hm)

/-- A step without a write breaks no series. -/
theorem unbroken_succ_iff (h : obs n = none) :
    Unbroken keeps obs (n + 1) j ↔ Unbroken keeps obs n j := by
  refine ⟨fun hu => hu.mono (Nat.le_succ n), fun hu a b ha hb hab => ?_⟩
  have hne : b ≠ n := by
    rintro rfl
    exact absurd hab.right (by simp [h])
  exact hu a b ha (by omega) hab

/-- A write right after the last one continues its series when every step between keeps it. -/
theorem Unbroken.write (hu : Unbroken keeps obs n j) (hlast : IsLast obs n a x)
    (hkeeps : ∀ i, a < i → i < n → keeps a i) : Unbroken keeps obs (n + 1) j := by
  intro a' b ha' hb hab i hi hib
  rcases Nat.lt_succ_iff_lt_or_eq.mp hb with hlt | rfl
  · exact hu a' b ha' hlt hab i hi hib
  · obtain ⟨y, hy⟩ := Option.isSome_iff_exists.mp hab.left
    obtain ⟨rfl, _⟩ := hlast.unique ⟨hab.lt, hy, hab.silent⟩
    exact hkeeps i hi hib

/-- A series that a write continues was kept at every step since its last write. -/
theorem Unbroken.keeps_last (hu : Unbroken keeps obs (n + 1) j) (hwrite : (obs n).isSome = true)
    (hlast : IsLast obs n a x) (hj : j ≤ a) {i : Nat} (hi : a < i) (hin : i < n) : keeps a i :=
  hu a n hj (Nat.lt_succ_self n)
    ⟨hlast.before, by rw [hlast.written, Option.isSome_some], hwrite, hlast.silent⟩ i hi hin

theorem IsStart.unique {j' : Nat} (h : IsStart keeps obs n j) (h' : IsStart keeps obs n j') :
    j = j' :=
  Nat.le_antisymm (h.earliest j' h'.before h'.written h'.unbroken)
    (h'.earliest j h.before h.written h.unbroken)

theorem isStart_succ_iff (h : obs n = none) :
    IsStart keeps obs (n + 1) j ↔ IsStart keeps obs n j := by
  constructor
  · intro hs
    -- nothing was written at the new index
    have hne : j ≠ n := by
      rintro rfl
      exact absurd hs.written (by simp [h])
    have hbefore := hs.before
    exact ⟨by omega, hs.written, (unbroken_succ_iff h).mp hs.unbroken, fun j' hj' hw hu =>
      hs.earliest j' (Nat.lt_succ_of_lt hj') hw ((unbroken_succ_iff h).mpr hu)⟩
  · intro hs
    refine ⟨Nat.lt_succ_of_lt hs.before, hs.written, (unbroken_succ_iff h).mpr hs.unbroken,
      fun j' hj' hw hu => ?_⟩
    have hne : j' ≠ n := by
      rintro rfl
      exact absurd hw (by simp [h])
    exact hs.earliest j' (by omega) hw ((unbroken_succ_iff h).mp hu)

/-- A write after an entry that is still held continues the series of that entry. -/
theorem isStart_write_of_held {n : Nat} {e : Entry α}
    (hanti : ∀ a i, a ≤ i → i < n → keeps a (n - 1) → keeps a i)
    (h : Accounts keeps obs n (some e)) : IsStart keeps obs (n + 1) e.first := by
  obtain ⟨hlast, hkept, hstart⟩ := h
  refine ⟨Nat.lt_succ_of_lt hstart.before, hstart.written, ?_, fun j' hj' hw hu => ?_⟩
  · exact hstart.unbroken.write hlast fun i hi hin => hanti _ i (Nat.le_of_lt hi) hin hkept
  · rcases Nat.lt_succ_iff_lt_or_eq.mp hj' with hlt | rfl
    · exact hstart.earliest j' hlt hw (hu.mono (Nat.le_succ n))
    · exact Nat.le_of_lt hstart.before

/-- A write when nothing is held starts a series of its own. -/
theorem isStart_write_of_dropped {n : Nat} (hself : ∀ n, keeps n n)
    (hwrite : (obs n).isSome = true) (h : Accounts keeps obs n none) :
    IsStart keeps obs (n + 1) n := by
  refine ⟨Nat.lt_succ_self n, hwrite, fun a b ha hb hab => ?_, fun j' hj' hw hu => ?_⟩
  · exact absurd hab.lt (by omega)
  · rcases Nat.lt_succ_iff_lt_or_eq.mp hj' with hlt | rfl
    · obtain ⟨a, y, hja, hlast⟩ := exists_isLast hw hlt
      have hdropped := h a y hlast
      have hbefore := hlast.before
      rcases Nat.lt_or_ge a (n - 1) with hgap | hadjacent
      · exact absurd (hu.keeps_last hwrite hlast hja hgap (by omega)) hdropped
      · rw [show n - 1 = a by omega] at hdropped
        exact absurd (hself a) hdropped
    · exact Nat.le_refl _

end History

/-! ## The register meets the history -/

section Run

variable {keeps : Nat → Nat → Prop} [DecidableRel keeps] {obs : Nat → Option α}

theorem run_succ_of_write {n : Nat} {x : α} (h : obs n = some x) :
    run keeps obs (n + 1) = some ⟨x, ((run keeps obs n).map Entry.first).getD n, n⟩ := by
  rw [run, step, h]

theorem run_succ_of_silent {n : Nat} (h : obs n = none) :
    run keeps obs (n + 1) = (run keeps obs n).filter fun e => keeps e.last n := by
  rw [run, step, h]

/-- An entry was written, and its series began, at steps that were made. -/
theorem lt_of_run {n : Nat} {e : Entry α} (h : run keeps obs n = some e) :
    e.first < n ∧ e.last < n := by
  induction n generalizing e with
  | zero => exact absurd h (by simp [run])
  | succ n ih =>
      cases hobs : obs n with
      | some x =>
          rw [run_succ_of_write hobs, Option.some.injEq] at h
          rw [← h]
          refine ⟨?_, Nat.lt_succ_self n⟩
          cases hrun : run keeps obs n with
          | none => exact Nat.lt_succ_self n
          | some previous => exact Nat.lt_succ_of_lt (ih hrun).1
      | none =>
          rw [run_succ_of_silent hobs, Option.filter_eq_some_iff] at h
          obtain ⟨hfirst, hlast⟩ := ih h.1
          exact ⟨Nat.lt_succ_of_lt hfirst, Nat.lt_succ_of_lt hlast⟩

section Laws

variable {bound : Nat} (hself : ∀ n, keeps n n)
  (hanti : ∀ a i m, a ≤ i → i ≤ m → m < bound → keeps a m → keeps a i)
include hself hanti

/-- One step keeps the account. -/
theorem accounts_step {n : Nat} (hn : n < bound) (h : Accounts keeps obs n (run keeps obs n)) :
    Accounts keeps obs (n + 1) (run keeps obs (n + 1)) := by
  cases hobs : obs n with
  | some x =>
      rw [run_succ_of_write hobs]
      refine ⟨.of_write hobs, hself n, ?_⟩
      cases hrun : run keeps obs n with
      | some e =>
          rw [hrun] at h
          have hstart := isStart_write_of_held
            (fun a i hai hin => hanti a i (n - 1) hai (by omega) (by omega)) h
          exact hstart
      | none =>
          rw [hrun] at h
          exact isStart_write_of_dropped hself (by rw [hobs, Option.isSome_some]) h
  | none =>
      rw [run_succ_of_silent hobs]
      cases hrun : run keeps obs n with
      | some e =>
          rw [hrun] at h
          obtain ⟨hlast, _, hstart⟩ := h
          -- a silent step drops the entry when it has expired
          by_cases hkept : keeps e.last n
          · rw [Option.filter_some, if_pos (decide_eq_true hkept)]
            exact ⟨(isLast_succ_iff hobs).mpr hlast, hkept, (isStart_succ_iff hobs).mpr hstart⟩
          · rw [Option.filter_some, if_neg (by simpa using hkept)]
            intro a x hax
            rw [(((isLast_succ_iff hobs).mp hax).unique hlast).1]
            exact hkept
      | none =>
          rw [hrun] at h
          intro a x hax hkept
          have hlast := (isLast_succ_iff hobs).mp hax
          have hbefore := hlast.before
          exact h a x hlast (hanti _ _ _ (by omega) (Nat.sub_le n 1) hn hkept)

/-- After any number of steps the register is what the history says. -/
theorem accounts_run {n : Nat} (hn : n ≤ bound) : Accounts keeps obs n (run keeps obs n) := by
  induction n with
  | zero => exact fun a x h => absurd h.before (Nat.not_lt_zero a)
  | succ n ih => exact accounts_step hself hanti hn (ih (Nat.le_of_succ_le hn))

/-- The register holds an entry exactly when it is the last write, kept by the last step, with the
    start of its series. -/
theorem run_eq_some_iff {n : Nat} (hn : n ≤ bound) {e : Entry α} :
    run keeps obs n = some e ↔
      IsLast obs n e.last e.value ∧ keeps e.last (n - 1) ∧ IsStart keeps obs n e.first := by
  have haccounts : Accounts keeps obs n (run keeps obs n) := accounts_run hself hanti hn
  constructor
  · intro hrun
    rw [hrun] at haccounts
    exact haccounts
  · rintro ⟨hlast, hkept, hstart⟩
    cases hrun : run keeps obs n with
    -- a kept last write rules out an empty register
    | none =>
        rw [hrun] at haccounts
        exact absurd hkept (haccounts _ _ hlast)
    | some e' =>
        rw [hrun] at haccounts
        obtain ⟨hlast', _, hstart'⟩ := haccounts
        obtain ⟨ha, hx⟩ := hlast'.unique hlast
        rw [Option.some.injEq]
        exact Entry.ext hx (hstart'.unique hstart) ha

/-- When the last write is kept, its series has a start. -/
theorem exists_isStart {n a : Nat} (hn : n ≤ bound) {x : α} (hlast : IsLast obs n a x)
    (hkept : keeps a (n - 1)) : ∃ j, IsStart keeps obs n j := by
  have haccounts : Accounts keeps obs n (run keeps obs n) := accounts_run hself hanti hn
  cases hrun : run keeps obs n with
  | none =>
      rw [hrun] at haccounts
      exact absurd hkept (haccounts a x hlast)
  | some e =>
      rw [hrun] at haccounts
      exact ⟨e.first, haccounts.2.2⟩

end Laws

/-- The register depends on the steps it has made only. -/
theorem run_congr {keeps' : Nat → Nat → Prop} [DecidableRel keeps'] {obs' : Nat → Option α} {n : Nat}
    (hobs : ∀ i < n, obs i = obs' i) (hkeeps : ∀ a i, a < i → i < n → (keeps a i ↔ keeps' a i)) :
    run keeps obs n = run keeps' obs' n := by
  induction n with
  | zero => rfl
  | succ n ih =>
      have hprevious := ih (fun i hi => hobs i (by omega)) fun a i ha hi => hkeeps a i ha (by omega)
      have hn := hobs n (Nat.lt_succ_self n)
      cases hwrite : obs n with
      | some x => rw [run_succ_of_write hwrite, run_succ_of_write (hn ▸ hwrite), hprevious]
      | none =>
          rw [run_succ_of_silent hwrite, run_succ_of_silent (hn ▸ hwrite), ← hprevious]
          cases hrun : run keeps obs n with
          | none => rfl
          | some e =>
              have hkept := hkeeps e.last n (lt_of_run hrun).2 (Nat.lt_succ_self n)
              rw [Option.filter_some, Option.filter_some, decide_eq_decide.mpr hkept]

end Run

end ArgoExporter.Lib.ExpiringRegister
