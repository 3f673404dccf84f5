/-
  ArgoExporter.Lib.RegexMatches

  What an expression matches: texts that lack a character it needs are left
  alone (`run_of_lacks`), the first of its matches is built from the first
  matches of its parts (`First`), and a repetition of a character set ends where
  its characters do.
-/

import ArgoExporter.Lib.Regex

namespace ArgoExporter.Lib.Regex

/-! ## Characters that a match needs -/

/-- Every match takes, or looks at, a character with the property. -/
def Needs (p : Char → Prop) : Regex → Prop
  | set accepts => ∀ c, accepts c → p c
  | seq r t => r.Needs p ∨ t.Needs p
  | alt r t => r.Needs p ∧ t.Needs p
  | rep r min _ => 0 < min ∧ r.Needs p
  | boundary _ => False
  | notBehind _ => False
  | ahead r => r.Needs p

theorem Needs.mono {p p' : Char → Prop} {r : Regex} (h : r.Needs p) (hp : ∀ c, p c → p' c) :
    r.Needs p' := by
  induction r with
  | set accepts => exact fun c hc => hp c (h c hc)
  | seq r t ihr iht => exact h.imp ihr iht
  | alt r t ihr iht => exact ⟨ihr h.1, iht h.2⟩
  | rep r min max ih => exact ⟨h.1, ih h.2⟩
  | boundary word => exact h.elim
  | notBehind accepts => exact h.elim
  | ahead r ih => exact ih h

theorem lacks_of_mem_run {p : Char → Prop} {r : Regex} {q q' : Position}
    (hq : ∀ c ∈ q.2, ¬ p c) (h : q' ∈ r.run q) : ∀ c ∈ q'.2, ¬ p c := by
  obtain ⟨w, hw, _⟩ := run_moves r q q' h
  intro c hc
  apply hq
  rw [hw]
  exact List.mem_append_right w hc

/-- A text without such a character is not matched. -/
theorem run_of_lacks {p : Char → Prop} {r : Regex} (h : r.Needs p) {q : Position}
    (hq : ∀ c ∈ q.2, ¬ p c) : r.run q = [] := by
  induction r generalizing q with
  | set accepts =>
      obtain ⟨before, s⟩ := q
      cases s with
      | nil => rfl
      | cons c s =>
          rw [run_set_cons, if_neg]
          intro hc
          exact hq c List.mem_cons_self (h c hc)
  | seq r t ihr iht =>
      rw [run_seq]
      rcases h with h | h
      · rw [ihr h hq, List.flatMap_nil]
      · apply List.flatMap_eq_nil_iff.mpr
        exact fun q' hq' => iht h (lacks_of_mem_run hq hq')
  | alt r t ihr iht => rw [run_alt, ihr h.1 hq, iht h.2 hq, List.append_nil]
  | rep r min max ih =>
      obtain ⟨hmin, h⟩ := h
      cases min with
      | zero => exact absurd hmin (by omega)
      | succ min => rw [run_rep, times, ih h hq, List.flatMap_nil, List.flatMap_nil]
  | boundary word => exact h.elim
  | notBehind accepts => exact h.elim
  | ahead r ih =>
      rw [run_ahead, ih h hq]
      rfl

theorem firstLength_of_run_nil {r : Regex} {q : Position} (h : r.run q = []) :
    r.firstLength q = 0 := by
  rw [firstLength, h]

/-! ## Replacing, piece by piece -/

theorem getLast?_or_cons (c : Char) (a : List Char) (p : Option Char) :
    (c :: a).getLast?.or p = a.getLast?.or (some c) := by
  cases a with
  | nil => rfl
  | cons d a => rw [List.getLast?_cons_cons, List.getLast?_cons, Option.some_or, Option.some_or]

/-- A character at which no match starts is kept. -/
theorem subFrom_cons_of_nil {r : Regex} (replacement : List Char) {p : Option Char} {c : Char}
    {s : List Char} (h : r.run (p, c :: s) = []) :
    r.subFrom replacement 0 p (c :: s) = c :: r.subFrom replacement 0 (some c) s := by
  rw [subFrom, firstLength_of_run_nil h]

/-- A piece in which no match starts is kept. -/
theorem subFrom_keep {r : Regex} (replacement : List Char) {a z : List Char} {p : Option Char}
    (h : ∀ u v, a = u ++ v → v ≠ [] → r.firstLength (u.getLast?.or p, v ++ z) = 0) :
    r.subFrom replacement 0 p (a ++ z) = a ++ r.subFrom replacement 0 (a.getLast?.or p) z := by
  induction a generalizing p with
  | nil => rfl
  | cons c a ih =>
      have hfirst : r.firstLength (p, c :: (a ++ z)) = 0 := h [] (c :: a) rfl (by simp)
      have hrest : ∀ u v, a = u ++ v → v ≠ [] →
          r.firstLength (u.getLast?.or (some c), v ++ z) = 0 := by
        intro u v ha hv
        have := h (c :: u) v (by rw [ha, List.cons_append]) hv
        rwa [getLast?_or_cons] at this
      rw [List.cons_append, subFrom, hfirst, getLast?_or_cons]
      dsimp only
      rw [ih hrest, List.cons_append]

/-- The characters of a match that are left to skip. -/
theorem subFrom_skip (r : Regex) (replacement : List Char) (w z : List Char) (p : Option Char) :
    r.subFrom replacement w.length p (w ++ z) = r.subFrom replacement 0 (w.getLast?.or p) z := by
  induction w generalizing p with
  | nil => rfl
  | cons c w ih => rw [List.length_cons, List.cons_append, subFrom, ih, getLast?_or_cons]

/-- A piece that is matched is replaced. -/
theorem subFrom_match {r : Regex} (replacement : List Char) {w z : List Char} {p : Option Char}
    (hw : w ≠ []) (h : r.firstLength (p, w ++ z) = w.length) :
    r.subFrom replacement 0 p (w ++ z) =
      replacement ++ r.subFrom replacement 0 (w.getLast?.or p) z := by
  cases w with
  | nil => exact absurd rfl hw
  | cons c w =>
      have hfirst : r.firstLength (p, c :: (w ++ z)) = w.length + 1 := h
      rw [List.cons_append, subFrom, hfirst, getLast?_or_cons]
      dsimp only
      rw [subFrom_skip]

/-- A text in which nothing matches is kept. -/
theorem sub_of_unmatched {r : Regex} (replacement : List Char) {a : List Char}
    (h : ∀ v, v <:+ a → ∀ p, r.run (p, v) = []) : r.sub replacement a = a := by
  have hkeep := subFrom_keep (r := r) replacement (a := a) (z := []) (p := none) (by
    intro u v huv _
    apply firstLength_of_run_nil
    rw [List.append_nil]
    exact h v (huv ▸ List.suffix_append u v) _)
  rw [List.append_nil] at hkeep
  rw [sub, hkeep, subFrom, List.append_nil]

/-- A text without a character that every match needs is kept. -/
theorem sub_of_lacks {p : Char → Prop} {r : Regex} (h : r.Needs p) (replacement : List Char)
    {a : List Char} (ha : ∀ c ∈ a, ¬ p c) : r.sub replacement a = a :=
  sub_of_unmatched replacement fun _ hv _ => run_of_lacks h fun c hc => ha c (hv.subset hc)

/-! ## The first match -/

/-- The match that is reported from `q` ends at `q'`. -/
def First (r : Regex) (q q' : Position) : Prop := ∃ l, r.run q = q' :: l

theorem First.mem {r : Regex} {q q' : Position} (h : First r q q') : q' ∈ r.run q := by
  obtain ⟨l, hl⟩ := h
  rw [hl]
  exact List.mem_cons_self

theorem First.firstLength {r : Regex} {p p' : Option Char} {w z : List Char}
    (h : First r (p, w ++ z) (p', z)) : r.firstLength (p, w ++ z) = w.length := by
  obtain ⟨l, hl⟩ := h
  rw [Regex.firstLength, hl]
  show (w ++ z).length - z.length = w.length
  rw [List.length_append, Nat.add_sub_cancel]

/-- A text that is matched as a whole is replaced. -/
theorem First.sub {r : Regex} {x : List Char} {p : Option Char} (h : First r (none, x) (p, []))
    (hne : x ≠ []) (replacement : List Char) : r.sub replacement x = replacement := by
  rw [← List.append_nil x] at h
  have hmatch := subFrom_match replacement hne h.firstLength
  rw [List.append_nil] at hmatch
  rw [Regex.sub, hmatch, subFrom, List.append_nil]

theorem First.seq {r t : Regex} {q m q' : Position} (hr : First r q m) (ht : First t m q') :
    First (r.seq t) q q' := by
  obtain ⟨l, hl⟩ := hr
  obtain ⟨l', hl'⟩ := ht
  exact ⟨l' ++ l.flatMap t.run, by rw [run_seq, hl, List.flatMap_cons, hl', List.cons_append]⟩

theorem First.left {r t : Regex} {q q' : Position} (hr : First r q q') : First (r.alt t) q q' := by
  obtain ⟨l, hl⟩ := hr
  exact ⟨l ++ t.run q, by rw [run_alt, hl, List.cons_append]⟩

theorem First.right {r t : Regex} {q q' : Position} (hr : r.run q = []) (ht : First t q q') :
    First (r.alt t) q q' := by
  obtain ⟨l, hl⟩ := ht
  exact ⟨l, by rw [run_alt, hr, hl, List.nil_append]⟩

theorem First.set {accepts : Char → Bool} {c : Char} (h : accepts c) (p : Option Char)
    (s : List Char) : First (set accepts) (p, c :: s) (some c, s) :=
  ⟨[], by rw [run_set_cons, if_pos h]⟩

theorem First.boundary {word : Char → Bool} {q : Position}
    (h : q.1.any word ≠ q.2.head?.any word) : First (boundary word) q q :=
  ⟨[], by rw [run_boundary, if_pos (by simpa using h)]⟩

theorem mem_run_boundary {word : Char → Bool} {q q' : Position} (h : q' ∈ (boundary word).run q) :
    q' = q := by
  rw [run_boundary] at h
  split_ifs at h
  · exact List.mem_singleton.mp h
  · exact absurd h (by simp)

theorem First.ahead {r : Regex} {q : Position} (h : r.run q ≠ []) : First r.ahead q q :=
  ⟨[], by rw [run_ahead, if_neg (by simpa using h)]⟩

theorem run_exactly (n : Nat) (r : Regex) (q : Position) :
    (exactly n r).run q = times r.run n q := by
  rw [exactly, run_rep]
  simp only [Option.map_some, Option.getD_some, Nat.sub_self]
  exact List.flatMap_pure_eq_map _ _ |>.trans (List.map_id _)

theorem First.exactly_zero (r : Regex) (q : Position) : First (exactly 0 r) q q :=
  ⟨[], rfl⟩

theorem First.exactly_succ {r : Regex} {n : Nat} {q m q' : Position} (hr : First r q m)
    (hrest : First (exactly n r) m q') : First (exactly (n + 1) r) q q' := by
  obtain ⟨l, hl⟩ := hr
  obtain ⟨l', hl'⟩ := hrest
  refine ⟨l' ++ l.flatMap (times r.run n), ?_⟩
  rw [run_exactly, times, hl, List.flatMap_cons, ← run_exactly, hl', List.cons_append]

/-- An optional part that matches is taken. -/
theorem First.opt_some {r : Regex} {q q' : Position} (h : First r q q')
    (hlen : q'.2.length < q.2.length) : First (opt r) q q' := by
  obtain ⟨l, hl⟩ := h
  refine ⟨((l.filter fun q' => q'.2.length < q.2.length).flatMap (upTo r.run 0)) ++ [q], ?_⟩
  rw [opt, run_rep, times, List.flatMap_cons, List.flatMap_nil, List.append_nil]
  show upTo r.run 1 q = _
  rw [upTo, hl, List.filter_cons_of_pos (by simpa using hlen), List.flatMap_cons]
  rfl

/-- One that does not is left out. -/
theorem run_opt_of_nil {r : Regex} {q : Position} (h : r.run q = []) : (opt r).run q = [q] := by
  rw [opt, run_rep, times, List.flatMap_cons, List.flatMap_nil, List.append_nil]
  show upTo r.run 1 q = _
  rw [upTo, h]
  rfl

/-- A repetition that needs nothing may take nothing. -/
theorem mem_run_rep_zero (r : Regex) (max : Option Nat) (q : Position) :
    q ∈ (rep r 0 max).run q := by
  rw [run_rep, times, List.flatMap_cons, List.flatMap_nil, List.append_nil]
  cases (max.map fun n => n - 0).getD q.2.length with
  | zero => exact List.mem_singleton_self q
  | succ n => exact List.mem_append_right _ (List.mem_singleton_self q)

/-- A step that takes something may stand before a repetition. -/
theorem mem_run_rep_step {r : Regex} {q m q' : Position} (hm : m ∈ r.run q)
    (hlen : m.2.length < q.2.length) (hq' : q' ∈ (rep r 0 none).run m) :
    q' ∈ (rep r 0 none).run q := by
  rw [run_rep, times, List.flatMap_cons, List.flatMap_nil, List.append_nil] at hq' ⊢
  obtain ⟨n, hn⟩ : ∃ n, q.2.length = n + 1 := ⟨q.2.length - 1, by omega⟩
  show q' ∈ upTo r.run q.2.length q
  rw [hn, upTo]
  apply List.mem_append_left
  apply List.mem_flatMap.mpr
  refine ⟨m, List.mem_filter.mpr ⟨hm, by simpa using hlen⟩, ?_⟩
  rw [upTo_fuel (m := m.2.length) (by omega) (Nat.le_refl _)]
  exact hq'

/-! ## Runs of a character set -/

/-- The text does not go on with a character of the set. -/
def Stops (accepts : Char → Bool) (z : List Char) : Prop :=
  ∀ c, z.head? = some c → accepts c = false

section Sets

variable {accepts : Char → Bool}

theorem Stops.run {z : List Char} (h : Stops accepts z) (p : Option Char) :
    (set accepts).run (p, z) = [] := by
  cases z with
  | nil => rfl
  | cons c z => rw [run_set_cons, if_neg (by rw [h c rfl]; simp)]

theorem times_set {w : List Char} (hw : ∀ c ∈ w, accepts c) (z : List Char) (p : Option Char) :
    times (set accepts).run w.length (p, w ++ z) = [(w.getLast?.or p, z)] := by
  induction w generalizing p with
  | nil => rfl
  | cons c w ih =>
      obtain ⟨hc, hw⟩ := List.forall_mem_cons.mp hw
      rw [List.length_cons, times, List.cons_append, run_set_cons, if_pos hc, List.flatMap_cons,
        List.flatMap_nil, List.append_nil, ih hw, getLast?_or_cons]

theorem times_set_of_short {w z : List Char} {n : Nat} (hn : w.length < n) (hz : Stops accepts z)
    (hw : ∀ c ∈ w, accepts c) (p : Option Char) :
    times (set accepts).run n (p, w ++ z) = [] := by
  induction w generalizing n p with
  | nil =>
      cases n with
      | zero => exact absurd hn (by simp)
      | succ n => rw [times, List.nil_append, hz.run, List.flatMap_nil]
  | cons c w ih =>
      obtain ⟨hc, hw⟩ := List.forall_mem_cons.mp hw
      cases n with
      | zero => exact absurd hn (by simp)
      | succ n =>
          rw [times, List.cons_append, run_set_cons, if_pos hc, List.flatMap_cons,
            List.flatMap_nil, List.append_nil]
          exact ih (Nat.lt_of_succ_lt_succ hn) hw (some c)

/-- A repetition goes on to the end of its characters first. -/
theorem upTo_set {w z : List Char} {n : Nat} (hn : w.length ≤ n)
    (hz : Stops accepts z ∨ w.length = n) (hw : ∀ c ∈ w, accepts c) (p : Option Char) :
    ∃ l, upTo (set accepts).run n (p, w ++ z) = (w.getLast?.or p, z) :: l := by
  induction w generalizing n p with
  | nil =>
      cases n with
      | zero => exact ⟨[], rfl⟩
      | succ n =>
          rcases hz with hz | hz
          · refine ⟨[], ?_⟩
            rw [upTo, List.nil_append, hz.run, List.filter_nil, List.flatMap_nil]
            rfl
          · exact absurd hz (by simp)
  | cons c w ih =>
      obtain ⟨hc, hw⟩ := List.forall_mem_cons.mp hw
      cases n with
      | zero => exact absurd hn (by simp)
      | succ n =>
          obtain ⟨l, hl⟩ := ih (Nat.le_of_succ_le_succ hn) (hz.imp_right Nat.succ.inj) hw (some c)
          refine ⟨l ++ [(p, (c :: w) ++ z)], ?_⟩
          rw [upTo, List.cons_append, run_set_cons, if_pos hc,
            List.filter_cons_of_pos (by simp), List.filter_nil, List.flatMap_cons,
            List.flatMap_nil, List.append_nil, hl, getLast?_or_cons, List.cons_append]

/-- What cannot follow inside the run follows at its end only. -/
theorem upTo_set_then {next : Position → List Position}
    (hnext : ∀ c s p, accepts c → next (p, c :: s) = []) {w z : List Char} {n : Nat}
    (hn : w.length ≤ n) (hz : Stops accepts z) (hw : ∀ c ∈ w, accepts c) (p : Option Char) :
    (upTo (set accepts).run n (p, w ++ z)).flatMap next = next (w.getLast?.or p, z) := by
  induction w generalizing n p with
  | nil =>
      cases n with
      | zero => exact (List.flatMap_cons ..).trans (List.append_nil _)
      | succ n =>
          rw [upTo, List.nil_append, hz.run, List.filter_nil, List.flatMap_nil, List.nil_append]
          exact (List.flatMap_cons ..).trans (List.append_nil _)
  | cons c w ih =>
      obtain ⟨hc, hw⟩ := List.forall_mem_cons.mp hw
      cases n with
      | zero => exact absurd hn (by simp)
      | succ n =>
          rw [upTo, List.cons_append, run_set_cons, if_pos hc,
            List.filter_cons_of_pos (by simp), List.filter_nil, List.flatMap_cons,
            List.flatMap_nil, List.append_nil, List.flatMap_append,
            ih (Nat.le_of_succ_le_succ hn) hw, List.flatMap_cons, hnext c _ p hc,
            List.flatMap_nil, List.append_nil, List.append_nil, getLast?_or_cons]

/-- The bounds of a repetition allow this length. -/
def Allows (min : Nat) (max : Option Nat) (n : Nat) : Prop := min ≤ n ∧ ∀ m, max = some m → n ≤ m

theorem Allows.fuel {min n : Nat} {max : Option Nat} (h : Allows min max n) {k : Nat}
    (hk : n - min ≤ k) : n - min ≤ (max.map fun m => m - min).getD k := by
  cases max with
  | none => exact hk
  | some m => exact Nat.sub_le_sub_right (h.2 m rfl) min

/-- The required part of a repetition is taken in one way. -/
theorem run_rep_set {w : List Char} {min : Nat} (hmin : min ≤ w.length)
    (hw : ∀ c ∈ w, accepts c) (max : Option Nat) (z : List Char) (p : Option Char) :
    (rep (set accepts) min max).run (p, w ++ z) =
      upTo (set accepts).run ((max.map fun m => m - min).getD (w.drop min ++ z).length)
        ((w.take min).getLast?.or p, w.drop min ++ z) := by
  have hprefix : ∀ c ∈ w.take min, accepts c := fun c hc => hw c (List.mem_of_mem_take hc)
  have htimes := times_set hprefix (w.drop min ++ z) p
  rw [List.length_take, Nat.min_eq_left hmin, ← List.append_assoc, List.take_append_drop] at htimes
  rw [run_rep, htimes, List.flatMap_cons, List.flatMap_nil, List.append_nil]

theorem getLast?_take_drop (w : List Char) (n : Nat) (p : Option Char) :
    (w.drop n).getLast?.or ((w.take n).getLast?.or p) = w.getLast?.or p := by
  rw [← Option.or_assoc, ← List.getLast?_append, List.take_append_drop]

theorem Allows.drop {min : Nat} {max : Option Nat} {w : List Char}
    (h : Allows min max w.length) (z : List Char) :
    (w.drop min).length ≤ (max.map fun m => m - min).getD (w.drop min ++ z).length := by
  rw [List.length_drop]
  apply h.fuel
  rw [List.length_append, List.length_drop]
  omega

theorem First.rep_set {w z : List Char} {min : Nat} {max : Option Nat}
    (hlen : Allows min max w.length) (hz : Stops accepts z) (hw : ∀ c ∈ w, accepts c)
    (p : Option Char) : First (rep (.set accepts) min max) (p, w ++ z) (w.getLast?.or p, z) := by
  have hrest : ∀ c ∈ w.drop min, accepts c := fun c hc => hw c (List.mem_of_mem_drop hc)
  obtain ⟨l, hl⟩ := upTo_set (hlen.drop z) (Or.inl hz) hrest ((w.take min).getLast?.or p)
  exact ⟨l, by rw [run_rep_set hlen.1 hw, hl, getLast?_take_drop]⟩

/-- What cannot follow inside the run follows the repetition at the end of the run only. -/
theorem rep_set_then {next : Position → List Position}
    (hnext : ∀ c s p, accepts c → next (p, c :: s) = []) {w z : List Char} {min : Nat}
    {max : Option Nat} (hlen : Allows min max w.length) (hz : Stops accepts z)
    (hw : ∀ c ∈ w, accepts c) (p : Option Char) :
    ((rep (.set accepts) min max).run (p, w ++ z)).flatMap next = next (w.getLast?.or p, z) := by
  have hrest : ∀ c ∈ w.drop min, accepts c := fun c hc => hw c (List.mem_of_mem_drop hc)
  rw [run_rep_set hlen.1 hw, upTo_set_then hnext (hlen.drop z) hz hrest, getLast?_take_drop]

theorem rep_set_of_short {w z : List Char} {min : Nat} (hlen : w.length < min)
    (hz : Stops accepts z) (hw : ∀ c ∈ w, accepts c) (max : Option Nat) (p : Option Char) :
    (rep (set accepts) min max).run (p, w ++ z) = [] := by
  rw [run_rep, times_set_of_short hlen hz hw, List.flatMap_nil]

/-- A given number of characters of the set. -/
theorem run_exactly_set {w : List Char} (hw : ∀ c ∈ w, accepts c) (z : List Char)
    (p : Option Char) :
    (exactly w.length (set accepts)).run (p, w ++ z) = [(w.getLast?.or p, z)] := by
  rw [run_exactly, times_set hw]

theorem First.exactly_set {w : List Char} {n : Nat} (hlen : w.length = n)
    (hw : ∀ c ∈ w, accepts c) (z : List Char) (p : Option Char) :
    First (exactly n (.set accepts)) (p, w ++ z) (w.getLast?.or p, z) :=
  ⟨[], hlen ▸ run_exactly_set hw z p⟩

theorem mem_run_exactly_set {n : Nat} {q q' : Position}
    (h : q' ∈ (exactly n (set accepts)).run q) :
    ∃ w, w.length = n ∧ (∀ c ∈ w, accepts c) ∧ q.2 = w ++ q'.2 ∧ q'.1 = w.getLast?.or q.1 := by
  rw [run_exactly] at h
  induction n generalizing q with
  | zero =>
      rw [List.mem_singleton.mp h]
      exact ⟨[], rfl, by simp, rfl, rfl⟩
  | succ n ih =>
      obtain ⟨m, hm, hrest⟩ := List.mem_flatMap.mp h
      obtain ⟨p, s⟩ := q
      cases s with
      | nil => exact absurd hm (by simp)
      | cons c s =>
          rw [run_set_cons] at hm
          split_ifs at hm with hc
          · rw [List.mem_singleton.mp hm] at hrest
            obtain ⟨w, hlen, hw, hs, hlast⟩ := ih hrest
            exact ⟨c :: w, by rw [List.length_cons, hlen], List.forall_mem_cons.mpr ⟨hc, hw⟩,
              congrArg (List.cons c) hs, by rw [hlast, getLast?_or_cons]⟩
          · exact absurd hm (by simp)

end Sets

end ArgoExporter.Lib.Regex
