/-
  ArgoExporter.Lib.RegexWords

  Replacing in a word.  An expression between two word boundaries matches a
  word as a whole or not at all, and a match has at least as many characters as
  the expression asks for.
-/

import ArgoExporter.Lib.RegexMatches

namespace ArgoExporter.Lib.Regex

/-! ## Length of a match -/

/-- Least number of characters in a match. -/
def minLength : Regex → Nat
  | set _ => 1
  | seq r t => r.minLength + t.minLength
  | alt r t => Nat.min r.minLength t.minLength
  | rep r min _ => min * r.minLength
  | boundary _ => 0
  | notBehind _ => 0
  | ahead _ => 0

theorem length_of_mem_times {step : Position → List Position} {k : Nat}
    (hstep : ∀ q, ∀ q' ∈ step q, q'.2.length + k ≤ q.2.length) (n : Nat) :
    ∀ q, ∀ q' ∈ times step n q, q'.2.length + n * k ≤ q.2.length := by
  induction n with
  | zero =>
      intro q q' hq'
      rw [List.mem_singleton.mp hq', Nat.zero_mul, Nat.add_zero]
  | succ n ih =>
      intro q q' hq'
      obtain ⟨m, hm, hq'⟩ := List.mem_flatMap.mp hq'
      have hfirst := hstep q m hm
      have hrest := ih m q' hq'
      rw [Nat.succ_mul]
      omega

theorem Moves.length_le {q q' : Position} (h : Moves q q') : q'.2.length ≤ q.2.length := by
  obtain ⟨w, hw, _⟩ := h
  rw [hw, List.length_append]
  omega

theorem length_of_mem_run (r : Regex) :
    ∀ q, ∀ q' ∈ r.run q, q'.2.length + r.minLength ≤ q.2.length := by
  induction r with
  | set accepts =>
      rintro ⟨p, s⟩ q' hq'
      cases s with
      | nil => exact absurd hq' (by simp)
      | cons c s =>
          rw [run_set_cons] at hq'
          split_ifs at hq'
          · rw [List.mem_singleton.mp hq']
            exact Nat.le_refl _
          · exact absurd hq' (by simp)
  | seq r t ihr iht =>
      intro q q' hq'
      obtain ⟨m, hm, hq'⟩ := List.mem_flatMap.mp hq'
      have hfirst := ihr q m hm
      have hrest := iht m q' hq'
      rw [minLength]
      omega
  | alt r t ihr iht =>
      intro q q' hq'
      have hmin : (alt r t).minLength = min r.minLength t.minLength := rfl
      rcases List.mem_append.mp hq' with hq' | hq'
      · have := ihr q q' hq'
        omega
      · have := iht q q' hq'
        omega
  | rep r min max ih =>
      intro q q' hq'
      obtain ⟨m, hm, hq'⟩ := List.mem_flatMap.mp hq'
      have hfirst := length_of_mem_times ih min q m hm
      have hrest := (upTo_moves (run_moves r) _ m q' hq').length_le
      rw [minLength]
      omega
  | boundary word => exact fun q q' hq' => (run_moves _ q q' hq').length_le
  | notBehind accepts => exact fun q q' hq' => (run_moves _ q q' hq').length_le
  | ahead r _ => exact fun q q' hq' => (run_moves _ q q' hq').length_le

/-- A text that is too short is not matched. -/
theorem run_of_short {r : Regex} {q : Position} (h : q.2.length < r.minLength) : r.run q = [] := by
  apply List.eq_nil_iff_forall_not_mem.mpr
  intro q' hq'
  have := length_of_mem_run r q q' hq'
  omega

/-! ## Characters of a match -/

/-- A match takes characters with the property only. -/
def Only (p : Char → Prop) : Regex → Prop
  | set accepts => ∀ c, accepts c → p c
  | seq r t => r.Only p ∧ t.Only p
  | alt r t => r.Only p ∧ t.Only p
  | rep r _ _ => r.Only p
  | boundary _ => True
  | notBehind _ => True
  | ahead _ => True

/-- From one position to another over characters with the property. -/
def Over (p : Char → Prop) (q q' : Position) : Prop := ∃ w, q.2 = w ++ q'.2 ∧ ∀ c ∈ w, p c

theorem Over.refl (p : Char → Prop) (q : Position) : Over p q q := ⟨[], rfl, by simp⟩

theorem Over.trans {p : Char → Prop} {q q' q'' : Position} (h : Over p q q') (h' : Over p q' q'') :
    Over p q q'' := by
  obtain ⟨w, hw, hp⟩ := h
  obtain ⟨v, hv, hp'⟩ := h'
  exact ⟨w ++ v, by rw [hw, hv, List.append_assoc], List.forall_mem_append.mpr ⟨hp, hp'⟩⟩

theorem over_of_mem_run {p : Char → Prop} {r : Regex} (h : r.Only p) :
    ∀ q, ∀ q' ∈ r.run q, Over p q q' := by
  induction r with
  | set accepts =>
      rintro ⟨x, s⟩ q' hq'
      cases s with
      | nil => exact absurd hq' (by simp)
      | cons c s =>
          rw [run_set_cons] at hq'
          split_ifs at hq' with hc
          · rw [List.mem_singleton.mp hq']
            exact ⟨[c], rfl, by simpa using h c hc⟩
          · exact absurd hq' (by simp)
  | seq r t ihr iht =>
      intro q q' hq'
      obtain ⟨m, hm, hq'⟩ := List.mem_flatMap.mp hq'
      exact (ihr h.1 q m hm).trans (iht h.2 m q' hq')
  | alt r t ihr iht =>
      intro q q' hq'
      exact (List.mem_append.mp hq').elim (ihr h.1 q q') (iht h.2 q q')
  | rep r min max ih =>
      intro q q' hq'
      obtain ⟨m, hm, hq'⟩ := List.mem_flatMap.mp hq'
      exact (times_rel (Over.refl p) Over.trans (ih h) min q m hm).trans
        (upTo_rel (Over.refl p) Over.trans (ih h) _ m q' hq')
  | boundary word =>
      intro q q' hq'
      rw [mem_run_boundary hq']
      exact Over.refl p q
  | notBehind accepts =>
      intro q q' hq'
      rw [run_notBehind] at hq'
      split_ifs at hq'
      · exact absurd hq' (by simp)
      · rw [List.mem_singleton.mp hq']
        exact Over.refl p q
  | ahead r _ =>
      intro q q' hq'
      rw [run_ahead] at hq'
      split_ifs at hq'
      · exact absurd hq' (by simp)
      · rw [List.mem_singleton.mp hq']
        exact Over.refl p q

/-! ## Whole words -/

/-- The expression ends at a boundary. -/
def Closed (word : Char → Bool) : Regex → Prop
  | seq _ t => t.Closed word
  | boundary w => w = word
  | _ => False

theorem boundary_of_mem_run {word : Char → Bool} {r : Regex} (h : r.Closed word) {q q' : Position}
    (hq' : q' ∈ r.run q) : q'.1.any word ≠ q'.2.head?.any word := by
  induction r generalizing q with
  | seq r t _ iht =>
      obtain ⟨m, _, hq'⟩ := List.mem_flatMap.mp hq'
      exact iht h hq'
  | boundary w =>
      rw [run_boundary] at hq'
      split_ifs at hq' with hw
      · rw [List.mem_singleton.mp hq', ← show w = word from h]
        simpa using hw
      · exact absurd hq' (by simp)
  | set accepts => exact h.elim
  | alt r t => exact h.elim
  | rep r min max => exact h.elim
  | notBehind accepts => exact h.elim
  | ahead r => exact h.elim

/-- A match in a word that takes something takes the rest of it. -/
theorem whole_of_mem_run {word : Char → Bool} {r : Regex} (h : r.Closed word)
    (hmin : 0 < r.minLength) {q q' : Position} (hq : ∀ c ∈ q.2, word c) (hq' : q' ∈ r.run q) :
    q'.2 = [] := by
  have hlen := length_of_mem_run r q q' hq'
  have hbound := boundary_of_mem_run h hq'
  obtain ⟨w, hw, hp⟩ := run_moves r q q' hq'
  rw [hw, List.length_append] at hlen
  cases hs : q'.2 with
  | nil => rfl
  | cons d s =>
      refine absurd ?_ hbound
      have hd : word d := hq d (by rw [hw, hs]; exact List.mem_append_right w List.mem_cons_self)
      have hwne : w ≠ [] := by
        rintro rfl
        simp only [List.length_nil] at hlen
        omega
      have hlast : word (w.getLast hwne) :=
        hq _ (by rw [hw]; exact List.mem_append_left _ (List.getLast_mem hwne))
      rw [hp, hs, List.getLast?_eq_getLast_of_ne_nil hwne, List.head?_cons, Option.some_or,
        Option.any_some, Option.any_some, hlast, hd]

theorem run_boundary_inside {word : Char → Bool} {c d : Char} (hc : word c) (hd : word d)
    (t : Regex) (s : List Char) : (seq (boundary word) t).run (some c, d :: s) = [] := by
  rw [run_seq, run_boundary, if_neg (by simp [hc, hd]), List.flatMap_nil]

theorem run_opened_of_nil {t : Regex} {q : Position} (h : t.run q = []) (word : Char → Bool) :
    (seq (boundary word) t).run q = [] := by
  apply List.flatMap_eq_nil_iff.mpr
  intro q' hq'
  rw [mem_run_boundary hq', h]

/-- A word from whose start nothing is matched is kept. -/
theorem subFrom_word {word : Char → Bool} {t : Regex} {w z : List Char} {p : Option Char}
    (hw : ∀ c ∈ w, word c) (hstart : t.run (p, w ++ z) = []) (replacement : List Char) :
    (seq (boundary word) t).subFrom replacement 0 p (w ++ z) =
      w ++ (seq (boundary word) t).subFrom replacement 0 (w.getLast?.or p) z := by
  apply subFrom_keep
  intro u v huv hv
  apply firstLength_of_run_nil
  cases u with
  | nil =>
      rw [List.getLast?_nil, Option.none_or, show v = w from huv.symm]
      exact run_opened_of_nil hstart word
  | cons d u =>
      -- further on, no boundary
      obtain ⟨e, v, rfl⟩ := List.exists_cons_of_ne_nil hv
      rw [List.getLast?_eq_getLast_of_ne_nil (List.cons_ne_nil d u), Option.some_or]
      apply run_boundary_inside
      · exact hw _ (huv ▸ List.mem_append_left _ (List.getLast_mem _))
      · exact hw e (huv ▸ List.mem_append_right _ List.mem_cons_self)

/-- A word is replaced as a whole or not at all. -/
theorem sub_word {word : Char → Bool} {t : Regex} (h : t.Closed word) (hmin : 0 < t.minLength)
    {s : List Char} (hs : ∀ c ∈ s, word c) (replacement : List Char) :
    (seq (boundary word) t).sub replacement s =
      if (t.run (none, s)).isEmpty then s else replacement := by
  cases s with
  | nil =>
      rw [run_of_short (q := (none, [])) hmin]
      rfl
  | cons c s =>
      split_ifs with hempty
      · have hkeep := subFrom_word (z := []) (p := none) hs
          (by rw [List.append_nil]; exact List.isEmpty_iff.mp hempty) replacement
        rw [List.append_nil] at hkeep
        rw [sub, hkeep, subFrom, List.append_nil]
      · -- every match at the start takes the word
        cases hq : t.run (none, c :: s) with
        | nil => exact absurd (by rw [hq]; rfl) hempty
        | cons q' l =>
            have hwhole := whole_of_mem_run h hmin hs (hq ▸ List.mem_cons_self : q' ∈ t.run _)
            have hstart : First (boundary word) (none, c :: s) (none, c :: s) :=
              First.boundary (by simp [hs c List.mem_cons_self])
            have hfirst : First t (none, c :: s) (q'.1, []) := ⟨l, by rw [hq, ← hwhole]⟩
            exact (hstart.seq hfirst).sub (List.cons_ne_nil c s) replacement

/-- What a text consists of after replacing. -/
theorem mem_subFrom {r : Regex} {replacement : List Char} {c : Char} {k : Nat} {p : Option Char}
    {a : List Char} (h : c ∈ r.subFrom replacement k p a) : c ∈ a ∨ c ∈ replacement := by
  induction a generalizing k p with
  | nil =>
      rw [subFrom] at h
      exact absurd h (by simp)
  | cons d a ih =>
      cases k with
      | succ k =>
          rw [subFrom] at h
          exact (ih h).imp_left (List.mem_cons_of_mem d)
      | zero =>
          rw [subFrom] at h
          split at h
          · rcases List.mem_cons.mp h with rfl | h
            · exact Or.inl List.mem_cons_self
            · exact (ih h).imp_left (List.mem_cons_of_mem d)
          · rcases List.mem_append.mp h with h | h
            · exact Or.inr h
            · exact (ih h).imp_left (List.mem_cons_of_mem d)

theorem sub_ne_nil (r : Regex) {replacement a : List Char} (hreplacement : replacement ≠ [])
    (ha : a ≠ []) : r.sub replacement a ≠ [] := by
  obtain ⟨c, s, rfl⟩ := List.exists_cons_of_ne_nil ha
  rw [sub, subFrom]
  split
  · exact List.cons_ne_nil _ _
  · exact List.append_ne_nil_of_left_ne_nil hreplacement _

end ArgoExporter.Lib.Regex
