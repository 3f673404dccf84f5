/-
  ArgoExporter.Lib.Regex

  Backtracking regular expressions, as scripting languages run them: `run`
  lists every way to match from a position, in the order a backtracking engine
  tries them, so the first of the list is the match it reports.  `sub` replaces
  matches from left to right.

  The main facts are about texts that are put together: an expression that can
  neither take nor see past a separator does the same on each side of it
  (`run_append_of_avoids`, `subFrom_append`).
-/

import Mathlib.Data.List.Basic
import Mathlib.Data.List.Infix

namespace ArgoExporter.Lib

/-! ## Expressions -/

/-- A regular expression; `rep` is greedy, and no `max` is no bound. -/
inductive Regex where
  | set (accepts : Char → Bool)
  | seq (r t : Regex)
  | alt (r t : Regex)
  | rep (r : Regex) (min : Nat) (max : Option Nat)
  | boundary (word : Char → Bool)
  | notBehind (accepts : Char → Bool)
  | ahead (r : Regex)

namespace Regex

/-- A position: the character before it, and the text after it. -/
abbrev Position := Option Char × List Char

/-- A property of every character of a text is decided by walking the text, not by
    trying every character there is. -/
instance (priority := 2000) decidableOnText (accepts : Char → Prop) [DecidablePred accepts]
    (text : List Char) : Decidable (∀ c ∈ text, accepts c) :=
  List.decidableBAll accepts text

/-! ## Matching -/

/-- Exactly `n` steps. -/
def times (step : Position → List Position) : Nat → Position → List Position
  | 0, q => [q]
  | n + 1, q => (step q).flatMap (times step n)

/-- At most `n` steps, more before fewer; a step that takes nothing is not repeated. -/
def upTo (step : Position → List Position) : Nat → Position → List Position
  | 0, q => [q]
  | n + 1, q =>
      ((step q).filter fun q' => q'.2.length < q.2.length).flatMap (upTo step n) ++ [q]

/-- The ends of the matches that start at a position, in the order they are tried. -/
def run : Regex → Position → List Position
  | set accepts => fun q =>
      match q.2 with
      | [] => []
      | c :: s => if accepts c then [(some c, s)] else []
  | seq r t => fun q => (r.run q).flatMap t.run
  | alt r t => fun q => r.run q ++ t.run q
  | rep r min max => fun q => (times r.run min q).flatMap fun q' =>
      upTo r.run ((max.map fun n => n - min).getD q'.2.length) q'
  | boundary word => fun q => if q.1.any word != q.2.head?.any word then [q] else []
  | notBehind accepts => fun q => if q.1.any accepts then [] else [q]
  | ahead r => fun q => if (r.run q).isEmpty then [] else [q]

/-- Length of the match that is reported at a position; `0` if there is none. -/
def firstLength (r : Regex) (q : Position) : Nat :=
  match r.run q with
  | [] => 0
  | q' :: _ => q.2.length - q'.2.length

/-- Replace the matches of a text, of which `k` characters are still those of the last match.  A
    match of nothing is no match here. -/
def subFrom (r : Regex) (replacement : List Char) : Nat → Option Char → List Char → List Char
  | _, _, [] => []
  | k + 1, _, c :: s => subFrom r replacement k (some c) s
  | 0, p, c :: s =>
      match r.firstLength (p, c :: s) with
      | 0 => c :: subFrom r replacement 0 (some c) s
      | n + 1 => replacement ++ subFrom r replacement n (some c) s

/-- Replace every match of a text. -/
def sub (r : Regex) (replacement text : List Char) : List Char :=
  subFrom r replacement 0 none text

@[simp] theorem run_set_nil (accepts : Char → Bool) (p : Option Char) :
    (set accepts).run (p, []) = [] := rfl

@[simp] theorem run_set_cons (accepts : Char → Bool) (p : Option Char) (c : Char) (s : List Char) :
    (set accepts).run (p, c :: s) = if accepts c then [(some c, s)] else [] := rfl

theorem run_seq (r t : Regex) (q : Position) : (seq r t).run q = (r.run q).flatMap t.run := rfl

theorem run_alt (r t : Regex) (q : Position) : (alt r t).run q = r.run q ++ t.run q := rfl

theorem run_rep (r : Regex) (min : Nat) (max : Option Nat) (q : Position) :
    (rep r min max).run q = (times r.run min q).flatMap fun q' =>
      upTo r.run ((max.map fun n => n - min).getD q'.2.length) q' := rfl

theorem run_boundary (word : Char → Bool) (q : Position) :
    (boundary word).run q = if q.1.any word != q.2.head?.any word then [q] else [] := rfl

theorem run_notBehind (accepts : Char → Bool) (q : Position) :
    (notBehind accepts).run q = if q.1.any accepts then [] else [q] := rfl

theorem run_ahead (r : Regex) (q : Position) :
    (ahead r).run q = if (r.run q).isEmpty then [] else [q] := rfl

/-! ## Abbreviations -/

/-- One or more. -/
def plus (r : Regex) : Regex := rep r 1 none

/-- One or none. -/
def opt (r : Regex) : Regex := rep r 0 (some 1)

/-- Exactly `n`. -/
def exactly (n : Nat) (r : Regex) : Regex := rep r n (some n)

/-! ## Where a match goes -/

/-- `q'` is further on in the same text. -/
def Moves (q q' : Position) : Prop :=
  ∃ w, q.2 = w ++ q'.2 ∧ q'.1 = w.getLast?.or q.1

theorem Moves.refl (q : Position) : Moves q q := ⟨[], rfl, rfl⟩

theorem Moves.trans {q q' q'' : Position} (h : Moves q q') (h' : Moves q' q'') : Moves q q'' := by
  obtain ⟨w, hw, hp⟩ := h
  obtain ⟨v, hv, hp'⟩ := h'
  refine ⟨w ++ v, by rw [hw, hv, List.append_assoc], ?_⟩
  rw [hp', hp, List.getLast?_append, Option.or_assoc]

section Steps

variable {R : Position → Position → Prop} (refl : ∀ q, R q q)
  (trans : ∀ {q q' q''}, R q q' → R q' q'' → R q q'') {step : Position → List Position}
  (hstep : ∀ q, ∀ q' ∈ step q, R q q')

include refl trans hstep

/-- What one step keeps, several steps keep. -/
theorem times_rel (n : Nat) : ∀ q, ∀ q' ∈ times step n q, R q q' := by
  induction n with
  | zero =>
      intro q q' hq'
      rw [List.mem_singleton.mp hq']
      exact refl q
  | succ n ih =>
      intro q q' hq'
      obtain ⟨m, hm, hq'⟩ := List.mem_flatMap.mp hq'
      exact trans (hstep q m hm) (ih m q' hq')

theorem upTo_rel (n : Nat) : ∀ q, ∀ q' ∈ upTo step n q, R q q' := by
  induction n with
  | zero =>
      intro q q' hq'
      rw [List.mem_singleton.mp hq']
      exact refl q
  | succ n ih =>
      intro q q' hq'
      rcases List.mem_append.mp hq' with hq' | hq'
      · obtain ⟨m, hm, hq'⟩ := List.mem_flatMap.mp hq'
        exact trans (hstep q m (List.mem_of_mem_filter hm)) (ih m q' hq')
      · rw [List.mem_singleton.mp hq']
        exact refl q

end Steps

theorem upTo_moves {step : Position → List Position} (hstep : ∀ q, ∀ q' ∈ step q, Moves q q')
    (n : Nat) : ∀ q, ∀ q' ∈ upTo step n q, Moves q q' := upTo_rel Moves.refl Moves.trans hstep n

theorem run_moves (r : Regex) : ∀ q, ∀ q' ∈ r.run q, Moves q q' := by
  induction r with
  | set accepts =>
      rintro ⟨p, s⟩ q' hq'
      cases s with
      | nil => exact absurd hq' (by simp [run])
      | cons c s =>
          simp only [run] at hq'
          split_ifs at hq'
          · rw [List.mem_singleton.mp hq']
            exact ⟨[c], rfl, rfl⟩
          · exact absurd hq' (by simp)
  | seq r t ihr iht =>
      intro q q' hq'
      obtain ⟨m, hm, hq'⟩ := List.mem_flatMap.mp hq'
      exact (ihr q m hm).trans (iht m q' hq')
  | alt r t ihr iht =>
      intro q q' hq'
      rcases List.mem_append.mp hq' with hq' | hq'
      · exact ihr q q' hq'
      · exact iht q q' hq'
  | rep r min max ih =>
      intro q q' hq'
      obtain ⟨m, hm, hq'⟩ := List.mem_flatMap.mp hq'
      exact (times_rel Moves.refl Moves.trans ih min q m hm).trans (upTo_moves ih _ m q' hq')
  | boundary word =>
      intro q q' hq'
      simp only [run] at hq'
      split_ifs at hq'
      · rw [List.mem_singleton.mp hq']
        exact .refl q
      · exact absurd hq' (by simp)
  | notBehind accepts =>
      intro q q' hq'
      simp only [run] at hq'
      split_ifs at hq'
      · exact absurd hq' (by simp)
      · rw [List.mem_singleton.mp hq']
        exact .refl q
  | ahead r _ =>
      intro q q' hq'
      simp only [run] at hq'
      split_ifs at hq'
      · exact absurd hq' (by simp)
      · rw [List.mem_singleton.mp hq']
        exact .refl q

/-! ## Changing a position -/

/-- Matching after a change of the position is matching before it. -/
def Commutes (f : Position → Position) (step : Position → List Position) : Prop :=
  ∀ q, step (f q) = (step q).map f

/-- The change adds `k` characters to every text. -/
def Adds (f : Position → Position) (k : Nat) : Prop := ∀ q, (f q).2.length = q.2.length + k

theorem filter_map_shorter {f : Position → Position} {k : Nat} (hf : Adds f k) (q : Position)
    (l : List Position) :
    (l.map f).filter (fun q' => q'.2.length < (f q).2.length) =
      (l.filter fun q' => q'.2.length < q.2.length).map f := by
  rw [List.filter_map]
  congr 1
  apply List.filter_congr
  intro q' _
  simp only [Function.comp_apply, hf q, hf q', Nat.add_lt_add_iff_right]

/-- More repetitions than there are characters make no difference. -/
theorem upTo_fuel {step : Position → List Position} {n m : Nat} {q : Position}
    (hn : q.2.length ≤ n) (hm : q.2.length ≤ m) : upTo step n q = upTo step m q := by
  induction n generalizing m q with
  | zero =>
      cases m with
      | zero => rfl
      | succ m =>
          have hnone : ((step q).filter fun q' => q'.2.length < q.2.length) = [] := by
            apply List.filter_eq_nil_iff.mpr
            intro q' _
            simp only [decide_eq_true_eq]
            omega
          rw [upTo, upTo, hnone, List.flatMap_nil, List.nil_append]
  | succ n ih =>
      cases m with
      | zero =>
          have hnone : ((step q).filter fun q' => q'.2.length < q.2.length) = [] := by
            apply List.filter_eq_nil_iff.mpr
            intro q' _
            simp only [decide_eq_true_eq]
            omega
          rw [upTo, upTo, hnone, List.flatMap_nil, List.nil_append]
      | succ m =>
          rw [upTo, upTo]
          congr 1
          apply List.flatMap_congr
          intro q' hq'
          have hlt := of_decide_eq_true (List.mem_filter.mp hq').2
          exact ih (by omega) (by omega)

section Commutes

variable {f : Position → Position}

theorem Commutes.times {step : Position → List Position} (h : Commutes f step) (n : Nat) :
    Commutes f (times step n) := by
  induction n with
  | zero => exact fun _ => rfl
  | succ n ih =>
      intro q
      rw [Regex.times, Regex.times, h q, List.flatMap_map, List.map_flatMap]
      exact List.flatMap_congr fun q' _ => ih q'

theorem Commutes.upTo {step : Position → List Position} (h : Commutes f step) {k : Nat}
    (hf : Adds f k) (n : Nat) : Commutes f (upTo step n) := by
  induction n with
  | zero => exact fun _ => rfl
  | succ n ih =>
      intro q
      rw [Regex.upTo, Regex.upTo, h q, filter_map_shorter hf, List.flatMap_map, List.map_append,
        List.map_flatMap]
      congr 1
      exact List.flatMap_congr fun q' _ => ih q'

theorem Commutes.seq {r t : Regex} (hr : Commutes f r.run) (ht : Commutes f t.run) :
    Commutes f (r.seq t).run := by
  intro q
  rw [run_seq, run_seq, hr q, List.flatMap_map, List.map_flatMap]
  exact List.flatMap_congr fun q' _ => ht q'

theorem Commutes.alt {r t : Regex} (hr : Commutes f r.run) (ht : Commutes f t.run) :
    Commutes f (r.alt t).run := by
  intro q
  rw [run_alt, run_alt, hr q, ht q, List.map_append]

theorem Commutes.rep {r : Regex} (hr : Commutes f r.run) {k : Nat} (hf : Adds f k) (min : Nat)
    (max : Option Nat) : Commutes f (r.rep min max).run := by
  intro q
  rw [run_rep, run_rep, hr.times min q, List.flatMap_map, List.map_flatMap]
  apply List.flatMap_congr
  intro q' _
  cases max with
  | some n => exact hr.upTo hf (n - min) q'
  | none =>
      have hlen : q'.2.length ≤ (f q').2.length := by
        rw [hf q']
        omega
      show Regex.upTo r.run (f q').2.length (f q') = (Regex.upTo r.run q'.2.length q').map f
      rw [hr.upTo hf _ q', upTo_fuel (Nat.le_refl _) hlen]

theorem Commutes.ahead {r : Regex} (hr : Commutes f r.run) : Commutes f (r.ahead).run := by
  intro q
  rw [run_ahead, run_ahead, hr q, List.isEmpty_map]
  split_ifs <;> rfl

end Commutes

/-! ## Separators -/

/-- The expression cannot take `c`, and sees no difference between `c` and the end of a text. -/
def avoids (c : Char) : Regex → Bool
  | set accepts => !accepts c
  | seq r t => r.avoids c && t.avoids c
  | alt r t => r.avoids c && t.avoids c
  | rep r _ _ => r.avoids c
  | boundary word => !word c
  | notBehind accepts => !accepts c
  | ahead r => r.avoids c

/-- The expression sees no difference between `c` and the start of a text before it. -/
def overlooks (c : Char) : Regex → Bool
  | set _ => true
  | seq r t => r.overlooks c && t.overlooks c
  | alt r t => r.overlooks c && t.overlooks c
  | rep r _ _ => r.overlooks c
  | boundary word => !word c
  | notBehind accepts => !accepts c
  | ahead r => r.overlooks c

theorem overlooks_of_avoids {c : Char} {r : Regex} (h : r.avoids c) : r.overlooks c := by
  induction r with
  | set accepts => rfl
  | seq r t ihr iht =>
      rw [avoids, Bool.and_eq_true] at h
      rw [overlooks, ihr h.1, iht h.2]
      rfl
  | alt r t ihr iht =>
      rw [avoids, Bool.and_eq_true] at h
      rw [overlooks, ihr h.1, iht h.2]
      rfl
  | rep r min max ih => exact ih h
  | boundary word => exact h
  | notBehind accepts => exact h
  | ahead r ih => exact ih h

/-- Append to the text of a position. -/
def extend (z : List Char) (q : Position) : Position := (q.1, q.2 ++ z)

theorem adds_extend (z : List Char) : Adds (extend z) z.length := fun q => by
  rw [extend, List.length_append]

/-- What follows a separator does not matter before it. -/
theorem run_extend_of_avoids {c : Char} {r : Regex} (h : r.avoids c) (z : List Char) :
    Commutes (extend (c :: z)) r.run := by
  induction r with
  | set accepts =>
      rintro ⟨p, s⟩
      have hc : accepts c = false := by simpa [avoids] using h
      cases s with
      | nil => simp [extend, hc]
      | cons x s =>
          simp only [extend, List.cons_append, run_set_cons]
          split_ifs <;> rfl
  | seq r t ihr iht =>
      rw [avoids, Bool.and_eq_true] at h
      exact (ihr h.1).seq (iht h.2)
  | alt r t ihr iht =>
      rw [avoids, Bool.and_eq_true] at h
      exact (ihr h.1).alt (iht h.2)
  | rep r min max ih => exact (ih h).rep (adds_extend _) min max
  | boundary word =>
      rintro ⟨p, s⟩
      have hc : word c = false := by simpa [avoids] using h
      have hhead : (s ++ c :: z).head?.any word = s.head?.any word := by
        cases s with
        | nil => simp [hc]
        | cons x s => rfl
      rw [run_boundary, run_boundary]
      show (if p.any word != (s ++ c :: z).head?.any word then _ else _) = _
      rw [hhead]
      split_ifs <;> rfl
  | notBehind accepts =>
      rintro ⟨p, s⟩
      rw [run_notBehind, run_notBehind]
      show (if p.any accepts then _ else _) = List.map _ (if p.any accepts then _ else _)
      split_ifs <;> rfl
  | ahead r ih => exact (ih h).ahead

/-- A set may take the separator if nothing goes on behind it. -/
theorem Commutes.set_seq {c : Char} {z : List Char} {t : Regex}
    (ht : Commutes (extend (c :: z)) t.run) (hz : ∀ p, t.run (p, z) = []) (accepts : Char → Bool) :
    Commutes (extend (c :: z)) ((set accepts).seq t).run := by
  rintro ⟨p, s⟩
  cases s with
  | nil =>
      show ((set accepts).run (p, c :: z)).flatMap t.run = []
      rw [run_set_cons]
      split_ifs
      · rw [List.flatMap_cons, hz, List.flatMap_nil, List.append_nil]
      · rfl
  | cons x s =>
      show ((set accepts).run (p, x :: (s ++ c :: z))).flatMap t.run =
        (((set accepts).run (p, x :: s)).flatMap t.run).map (extend (c :: z))
      rw [run_set_cons, run_set_cons]
      split_ifs
      · simp only [List.flatMap_cons, List.flatMap_nil, List.append_nil]
        exact ht (some x, s)
      · rfl

/-- Let a separator stand before the start of a text. -/
def follow (c : Char) (q : Position) : Position := (q.1.or (some c), q.2)

theorem adds_follow (c : Char) : Adds (follow c) 0 := fun _ => rfl

/-- A separator before the start of a text is no different from the start. -/
theorem run_follow_of_overlooks {c : Char} {r : Regex} (h : r.overlooks c) :
    Commutes (follow c) r.run := by
  induction r with
  | set accepts =>
      rintro ⟨p, s⟩
      cases s with
      | nil => rfl
      | cons x s =>
          simp only [follow, run_set_cons]
          split_ifs <;> rfl
  | seq r t ihr iht =>
      rw [overlooks, Bool.and_eq_true] at h
      exact (ihr h.1).seq (iht h.2)
  | alt r t ihr iht =>
      rw [overlooks, Bool.and_eq_true] at h
      exact (ihr h.1).alt (iht h.2)
  | rep r min max ih => exact (ih h).rep (adds_follow c) min max
  | boundary word =>
      rintro ⟨p, s⟩
      have hc : word c = false := by simpa [overlooks] using h
      have hbefore : (p.or (some c)).any word = p.any word := by
        cases p with
        | none => simp [hc]
        | some x => rfl
      rw [run_boundary, run_boundary]
      show (if (p.or (some c)).any word != s.head?.any word then _ else _) =
        List.map _ (if p.any word != s.head?.any word then _ else _)
      rw [hbefore]
      split_ifs <;> rfl
  | notBehind accepts =>
      rintro ⟨p, s⟩
      have hc : accepts c = false := by simpa [overlooks] using h
      have hbefore : (p.or (some c)).any accepts = p.any accepts := by
        cases p with
        | none => simp [hc]
        | some x => rfl
      rw [run_notBehind, run_notBehind]
      show (if (p.or (some c)).any accepts then _ else _) = _
      rw [hbefore]
      split_ifs <;> rfl
  | ahead r ih => exact (ih h).ahead

/-! ## Replacing in a text of several parts -/

theorem firstLength_le (r : Regex) (q : Position) : r.firstLength q ≤ q.2.length := by
  unfold firstLength
  split
  · exact Nat.zero_le _
  · exact Nat.sub_le _ _

theorem firstLength_of_map {r : Regex} {f : Position → Position} {k : Nat} (hf : Adds f k)
    {q : Position} (h : r.run (f q) = (r.run q).map f) : r.firstLength (f q) = r.firstLength q := by
  unfold firstLength
  rw [h]
  cases r.run q with
  | nil => rfl
  | cons q' l =>
      show (f q).2.length - (f q').2.length = q.2.length - q'.2.length
      rw [hf q, hf q', Nat.add_sub_add_right]

/-- Where nothing in the first part of a text depends on the second, they are replaced apart. -/
theorem subFrom_append {r : Regex} {z : List Char} (replacement : List Char) {a : List Char}
    (h : ∀ s, s <:+ a → s ≠ [] → ∀ p, r.run (extend z (p, s)) = (r.run (p, s)).map (extend z))
    {k : Nat} (hk : k ≤ a.length) (p : Option Char) :
    r.subFrom replacement k p (a ++ z) =
      r.subFrom replacement k p a ++ r.subFrom replacement 0 (a.getLast?.or p) z := by
  induction a generalizing k p with
  | nil =>
      have hzero : k = 0 := Nat.le_zero.mp hk
      rw [hzero, List.nil_append, subFrom, List.nil_append, List.getLast?_nil, Option.none_or]
  | cons c a ih =>
      have hrest : ∀ s, s <:+ a → s ≠ [] →
          ∀ p, r.run (extend z (p, s)) = (r.run (p, s)).map (extend z) :=
        fun s hs => h s (hs.trans (List.suffix_cons c a))
      have hlast : (c :: a).getLast?.or p = a.getLast?.or (some c) := by
        cases a with
        | nil => rfl
        | cons d a =>
            rw [List.getLast?_cons_cons, List.getLast?_cons, Option.some_or, Option.some_or]
      rw [List.cons_append, hlast]
      cases k with
      | succ k =>
          rw [subFrom, subFrom, ih hrest (Nat.le_of_succ_le_succ hk)]
      | zero =>
          have hsame : r.firstLength (p, c :: (a ++ z)) = r.firstLength (p, c :: a) :=
            firstLength_of_map (adds_extend z) (h (c :: a) (List.suffix_refl _) (by simp) p)
          have hle := firstLength_le r (p, c :: a)
          rw [subFrom, subFrom, hsame]
          cases hfirst : r.firstLength (p, c :: a) with
          | zero =>
              dsimp only
              rw [ih hrest (Nat.zero_le _), List.cons_append]
          | succ n =>
              rw [hfirst] at hle
              dsimp only
              rw [ih hrest (Nat.le_of_succ_le_succ hle), List.append_assoc]

theorem subFrom_follow {c : Char} {r : Regex} (h : r.overlooks c) (replacement z : List Char) :
    r.subFrom replacement 0 (some c) z = r.subFrom replacement 0 none z := by
  cases z with
  | nil => rfl
  | cons x z =>
      have hsame : r.firstLength (some c, x :: z) = r.firstLength (none, x :: z) :=
        firstLength_of_map (adds_follow c) (run_follow_of_overlooks h (none, x :: z))
      rw [subFrom, subFrom, hsame]

/-- Matching at the positions of a text does not depend on what is appended to it. -/
def CommutesOn (a : List Char) (f : Position → Position) (step : Position → List Position) : Prop :=
  ∀ q, q.2 <:+ a → step (f q) = (step q).map f

theorem Commutes.on {f : Position → Position} {step : Position → List Position}
    (h : Commutes f step) (a : List Char) : CommutesOn a f step := fun q _ => h q

theorem CommutesOn.seq {a : List Char} {f : Position → Position} {r t : Regex}
    (hr : CommutesOn a f r.run) (ht : CommutesOn a f t.run) : CommutesOn a f (r.seq t).run := by
  intro q hq
  rw [run_seq, run_seq, hr q hq, List.flatMap_map, List.map_flatMap]
  apply List.flatMap_congr
  intro q' hq'
  obtain ⟨w, hw, _⟩ := run_moves r q q' hq'
  exact ht q' ((hw ▸ List.suffix_append w q'.2).trans hq)

/-- A character that is neither taken nor seen where it stands is kept, and the texts around it are
    replaced apart. -/
theorem sub_around {c : Char} {r : Regex} {a z : List Char}
    (h : CommutesOn a (extend (c :: z)) r.run) (hc : r.overlooks c) (replacement : List Char) :
    r.sub replacement (a ++ c :: z) = r.sub replacement a ++ c :: r.sub replacement z := by
  have hnone : ∀ p, r.firstLength (p, c :: z) = 0 := by
    intro p
    -- nothing is left to match at the end of the first text
    have hsame : r.firstLength (extend (c :: z) (p, [])) = r.firstLength (p, []) :=
      firstLength_of_map (adds_extend _) (h (p, []) List.nil_suffix)
    exact hsame.trans (Nat.le_zero.mp (firstLength_le r (p, [])))
  unfold sub
  rw [subFrom_append replacement (fun s hs _ p => h (p, s) hs) (Nat.zero_le _), subFrom, hnone]
  dsimp only
  rw [subFrom_follow hc]

/-- A separator is kept, and the texts around it are replaced apart. -/
theorem sub_separator {c : Char} {r : Regex} (h : r.avoids c) (replacement a z : List Char) :
    r.sub replacement (a ++ c :: z) = r.sub replacement a ++ c :: r.sub replacement z :=
  sub_around ((run_extend_of_avoids h z).on a) (overlooks_of_avoids h) replacement

end Regex

end ArgoExporter.Lib
