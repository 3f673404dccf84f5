/-
  ArgoExporter.Lib.SerialSchedule

  Slots of a serial schedule: each starts a fixed delay after the one before
  it finished.  How far apart two instants of consecutive slots can be, which
  windows that fall between two such instants they leave unseen, and how many
  instants that are some time apart fall into one window.
-/

import Mathlib.Algebra.Order.Ring.Defs
import Mathlib.Tactic.Linarith

namespace ArgoExporter.Lib

variable {α : Type} [CommRing α] [LinearOrder α] [IsStrictOrderedRing α]

/-- A stretch of time. -/
structure Slot (α : Type) where
  start : α
  duration : α

namespace Slot

def finish (s : Slot α) : α := s.start + s.duration

/-- The instant is one of the slot, ends included. -/
def Contains (s : Slot α) (t : α) : Prop := s.start ≤ t ∧ t ≤ s.finish

/-- `b` starts `delay` after `a` finished. -/
def Follows (delay : α) (a b : Slot α) : Prop := b.start = a.finish + delay

variable {delay bound : α} {a b : Slot α}

/-- From an instant of one slot to the end of the next: two durations and the delay. -/
theorem finish_sub_le (h : Follows delay a b) (ha : a.duration ≤ bound) (hb : b.duration ≤ bound)
    {t : α} (ht : a.start ≤ t) : b.finish - t ≤ 2 * bound + delay := by
  unfold Follows finish at *
  linarith

/-- So far apart are two instants of consecutive slots at most. -/
theorem sub_le_of_contains (h : Follows delay a b) (ha : a.duration ≤ bound)
    (hb : b.duration ≤ bound) {t t' : α} (ht : a.Contains t) (ht' : b.Contains t') :
    t' - t ≤ 2 * bound + delay := by
  have hfinish := finish_sub_le h ha hb ht.1
  have hle := ht'.2
  linarith

end Slot

/-- A window of length `ttl` that opens at `f` opens after `t` and has closed by `t'`. -/
def Missed (ttl t t' f : α) : Prop := t < f ∧ f + ttl ≤ t'

/-- Two instants miss some window exactly when they are further apart than it is long. -/
theorem exists_missed_iff {ttl t t' : α} : (∃ f, Missed ttl t t' f) ↔ ttl < t' - t := by
  constructor
  · rintro ⟨f, hopen, hclosed⟩
    linarith
  · intro h
    exact ⟨t' - ttl, by linarith, by linarith⟩

/-- Whole instants in order, each at least `gap` after the one before it. -/
def Spaced (gap : Int) (times : List Int) : Prop := times.Pairwise fun a b => a + gap ≤ b

/-- The instants after one that are spaced take their gaps to reach the last. -/
theorem Spaced.length_mul_le {gap first last : Int} {times : List Int}
    (h : Spaced gap (first :: times)) (hlast : ∀ t ∈ first :: times, t ≤ last) :
    first + times.length * gap ≤ last := by
  induction times generalizing first with
  | nil => simpa using hlast first List.mem_cons_self
  | cons second times ih =>
      obtain ⟨hfirst, hrest⟩ := List.pairwise_cons.mp h
      have hnext : first + gap ≤ second := hfirst second List.mem_cons_self
      have htail := ih hrest fun t ht => hlast t (List.mem_cons_of_mem _ ht)
      rw [List.length_cons, Nat.cast_succ, add_mul, one_mul]
      linarith

/-- A window has room for one such instant in every gap, and one more. -/
theorem Spaced.length_le {gap width last : Int} (hgap : 0 < gap) (hwidth : 0 ≤ width)
    {times : List Int} (h : Spaced gap times)
    (hwindow : ∀ t ∈ times, last - width ≤ t ∧ t ≤ last) :
    (times.length : Int) ≤ width / gap + 1 := by
  cases times with
  | nil =>
      have hnonneg := Int.ediv_nonneg hwidth (Int.le_of_lt hgap)
      simpa using Int.le_trans hnonneg (Int.le_add_of_nonneg_right Int.one_nonneg)
  | cons first times =>
      have hspan := h.length_mul_le fun t ht => (hwindow t ht).2
      have hfirst := (hwindow first List.mem_cons_self).1
      have hroom : (times.length : Int) ≤ width / gap :=
        Int.le_ediv_of_mul_le hgap (by linarith)
      rw [List.length_cons, Nat.cast_succ]
      linarith

end ArgoExporter.Lib
