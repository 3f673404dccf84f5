/-
  ArgoExporter.FailureTaxonomy.PodNames

  How the pod rule reads a name of segments: from a word on it takes up to seven
  more, to the last of them with five characters, and goes on behind that.  So
  whether it takes the last segment of a name depends on the segments before.
-/

import ArgoExporter.FailureTaxonomy.Durations

namespace ArgoExporter.FailureTaxonomy

open ArgoExporter.Lib
open ArgoExporter.Lib.Regex
open ArgoExporter.Py

variable {alnum : Char → Bool}

/-! ## Reading segments -/

/-- What is left behind the last word of five characters among the next `n + 1`. -/
def farthest : Nat → List Segment → Option (List Segment)
  | 0, .word w :: l => if w.length = 5 then some l else none
  | n + 1, .word w :: l => (farthest n l).or (if w.length = 5 then some l else none)
  | _, _ => none

theorem farthest_split {n : Nat} {l l' : List Segment} (h : farthest n l = some l') :
    ∃ s front, l = s :: (front ++ l') := by
  induction n generalizing l with
  | zero =>
      match l, h with
      | .word w :: l, h =>
          rw [farthest] at h
          split_ifs at h
          exact ⟨.word w, [], by rw [Option.some.inj h, List.nil_append]⟩
  | succ n ih =>
      match l, h with
      | .word w :: l, h =>
          rw [farthest] at h
          rcases Option.or_eq_some_iff.mp h with h | ⟨-, h⟩
          · obtain ⟨s, front, hl⟩ := ih h
            exact ⟨.word w, s :: front, by rw [hl, List.cons_append]⟩
          · split_ifs at h
            exact ⟨.word w, [], by rw [Option.some.inj h, List.nil_append]⟩

theorem farthest_length {n : Nat} {l l' : List Segment} (h : farthest n l = some l') :
    l'.length < l.length := by
  obtain ⟨s, front, rfl⟩ := farthest_split h
  rw [List.length_cons, List.length_append]
  omega

/-- The segments of a name once its pod names are replaced. -/
def podScan : List Segment → List Segment
  | .word a :: .word b :: l =>
      match _h : farthest 5 l with
      | some l' => .mark "pod".toList :: podScan l'
      | none => .word a :: podScan (.word b :: l)
  | s :: l => s :: podScan l
  | [] => []
termination_by l => l.length
decreasing_by
  · have := farthest_length ‹farthest 5 l = some _›
    simp only [List.length_cons]
    omega
  all_goals simp

/-- No more than `n` segments, all of them words. -/
def Near (n : Nat) (l : List Segment) : Prop := l.length ≤ n ∧ ∀ s ∈ l, s.isPlain = true

instance (n : Nat) (l : List Segment) : Decidable (Near n l) :=
  inferInstanceAs (Decidable (l.length ≤ n ∧ ∀ s ∈ l, s.isPlain = true))

/-- Whether the rule takes a word of five characters behind these segments. -/
def reaches : List Segment → Bool
  | .word _ :: .word b :: l =>
      if Near 5 l then true
      else
        match _h : farthest 5 l with
        | some l' => reaches l'
        | none => reaches (.word b :: l)
  | _ :: l => reaches l
  | [] => false
termination_by l => l.length
decreasing_by
  · have := farthest_length ‹farthest 5 l = some _›
    simp only [List.length_cons]
    omega
  all_goals simp

/-- The second of two segments is a word behind a word. -/
def Pair (s : Segment) (l : List Segment) : Prop := ∃ a b l', s = .word a ∧ l = .word b :: l'

section Equations

variable {a b : List Char} {l l' : List Segment}

theorem podScan_of_some (h : farthest 5 l = some l') :
    podScan (.word a :: .word b :: l) = .mark "pod".toList :: podScan l' := by
  rw [podScan]
  split
  · rename_i heq
    rw [h] at heq
    rw [Option.some.inj heq]
  · rename_i heq
    rw [h] at heq
    exact absurd heq (by simp)

theorem podScan_of_none (h : farthest 5 l = none) :
    podScan (.word a :: .word b :: l) = .word a :: podScan (.word b :: l) := by
  rw [podScan]
  split
  · rename_i heq
    rw [h] at heq
    exact absurd heq (by simp)
  · rfl

theorem podScan_of_not_pair {s : Segment} (h : ¬ Pair s l) : podScan (s :: l) = s :: podScan l := by
  rw [podScan]
  exact fun a b l' hs hl => h ⟨a, b, l', hs, hl⟩

@[simp] theorem podScan_nil : podScan [] = [] := by rw [podScan]

theorem not_pair_nil {s : Segment} : ¬ Pair s [] := by
  rintro ⟨a, b, l, -, hl⟩
  exact absurd hl (by simp)

theorem reaches_of_near (h : Near 5 l) :
    reaches (.word a :: .word b :: l) = true := by
  rw [reaches, if_pos h]

theorem reaches_of_some (hfar : ¬ Near 5 l)
    (h : farthest 5 l = some l') : reaches (.word a :: .word b :: l) = reaches l' := by
  rw [reaches, if_neg hfar]
  split
  · rename_i heq
    rw [h] at heq
    rw [Option.some.inj heq]
  · rename_i heq
    rw [h] at heq
    exact absurd heq (by simp)

theorem reaches_of_none (hfar : ¬ Near 5 l)
    (h : farthest 5 l = none) : reaches (.word a :: .word b :: l) = reaches (.word b :: l) := by
  rw [reaches, if_neg hfar]
  split
  · rename_i heq
    rw [h] at heq
    exact absurd heq (by simp)
  · rfl

theorem reaches_of_not_pair {s : Segment} (h : ¬ Pair s l) : reaches (s :: l) = reaches l := by
  rw [reaches]
  exact fun a b l' hs hl => h ⟨a, b, l', hs, hl⟩

end Equations

/-! ## The last segment -/

/-- What the rule may take last. -/
def Final (s : Segment) : Prop := s.isPlain = true ∧ s.chars.length = 5

instance : DecidablePred Final := fun s =>
  inferInstanceAs (Decidable (s.isPlain = true ∧ s.chars.length = 5))

theorem near_cons_word {n : Nat} {w : List Char} {l : List Segment} :
    Near (n + 1) (.word w :: l) ↔ Near n l := by
  rw [Near, Near, List.length_cons, Nat.add_le_add_iff_right, List.forall_mem_cons]
  exact and_congr_right fun _ => and_iff_right rfl

theorem not_near_mark {n : Nat} {name : List Char} {l : List Segment} :
    ¬ Near n (.mark name :: l) :=
  fun h => absurd (h.2 _ List.mem_cons_self) (by simp [Segment.isPlain])

theorem farthest_append_of_near {n : Nat} {l : List Segment} (hl : Near n l) {s : Segment}
    (hs : Final s) : farthest n (l ++ [s]) = some [] := by
  induction l generalizing n with
  -- the appended word is the last five characters of the match
  | nil =>
      cases s with
      | mark name => exact absurd hs.1 (by simp [Segment.isPlain])
      | word w =>
          have hfive : w.length = 5 := hs.2
          cases n <;> simp [farthest, hfive]
  | cons t l ih =>
      cases t with
      | mark name => exact absurd hl not_near_mark
      | word w =>
          cases n with
          | zero => exact absurd hl.1 (by simp)
          | succ n =>
              rw [List.cons_append, farthest, ih (near_cons_word.mp hl)]
              rfl

/-- A segment that is too far away, or that the rule does not take last, makes no difference. -/
theorem farthest_append_of_not {n : Nat} {l : List Segment} {s : Segment}
    (h : ¬ (Near n l ∧ Final s)) : farthest n (l ++ [s]) = (farthest n l).map (· ++ [s]) := by
  induction l generalizing n with
  | nil =>
      have hs : ¬ Final s := fun hs => h ⟨⟨Nat.zero_le n, by simp⟩, hs⟩
      cases s with
      | mark name => cases n <;> rfl
      | word w =>
          have hfive : ¬ w.length = 5 := fun hfive => hs ⟨rfl, hfive⟩
          cases n <;> simp [farthest, hfive]
  | cons t l ih =>
      cases t with
      | mark name => cases n <;> rfl
      | word w =>
          cases n with
          | zero =>
              rw [List.cons_append, farthest, farthest]
              split_ifs <;> rfl
          | succ n =>
              rw [List.cons_append, farthest, farthest, ih fun hl => h ⟨near_cons_word.mpr hl.1, hl.2⟩]
              split_ifs <;> cases farthest n l <;> rfl

theorem pair_append {s t : Segment} {l : List Segment} (h : Pair s (l ++ [t])) (hl : l ≠ []) :
    Pair s l := by
  obtain ⟨a, b, l', hs, hl'⟩ := h
  obtain ⟨u, l, rfl⟩ := List.exists_cons_of_ne_nil hl
  rw [List.cons_append, List.cons.injEq] at hl'
  exact ⟨a, b, l, hs, by rw [hl'.1]⟩

/-- A last segment that the rule does not take is left over. -/
theorem podScan_append {l : List Segment} {s : Segment} (h : ¬ (reaches l = true ∧ Final s)) :
    podScan (l ++ [s]) = podScan l ++ [s] := by
  induction l using podScan.induct with
  | case1 a b l l' hsome ih =>
      have hnear : ¬ (Near 5 l ∧ Final s) := fun hn => h ⟨reaches_of_near hn.1, hn.2⟩
      have hrest : ¬ (reaches l' = true ∧ Final s) := by
        rintro ⟨hreach, hs⟩
        have hfar : ¬ Near 5 l := fun hn => hnear ⟨hn, hs⟩
        exact h ⟨(reaches_of_some hfar hsome).trans hreach, hs⟩
      have happend := farthest_append_of_not hnear
      rw [hsome] at happend
      rw [podScan_of_some hsome, List.cons_append, List.cons_append, podScan_of_some happend,
        ih hrest, List.cons_append]
  | case2 a b l hnone ih =>
      have hnear : ¬ (Near 5 l ∧ Final s) := fun hn => h ⟨reaches_of_near hn.1, hn.2⟩
      have hrest : ¬ (reaches (.word b :: l) = true ∧ Final s) := by
        rintro ⟨hreach, hs⟩
        have hfar : ¬ Near 5 l := fun hn => hnear ⟨hn, hs⟩
        exact h ⟨(reaches_of_none hfar hnone).trans hreach, hs⟩
      have happend := farthest_append_of_not hnear
      rw [hnone] at happend
      have hscan := ih hrest
      rw [List.cons_append] at hscan
      rw [podScan_of_none hnone, List.cons_append, List.cons_append, podScan_of_none happend, hscan,
        List.cons_append]
  | case3 t l hpair ih =>
      have hpair : ¬ Pair t l := fun ⟨a, b, l', ht, hl⟩ => hpair a b l' ht hl
      rw [reaches_of_not_pair hpair] at h
      rw [podScan_of_not_pair hpair, List.cons_append]
      by_cases hp : Pair t (l ++ [s])
      · -- two words alone are no match
        have hl : l = [] := by
          by_contra hl
          exact hpair (pair_append hp hl)
        obtain ⟨a, b, l', ht, hl'⟩ := hp
        rw [hl, List.nil_append, List.cons.injEq] at hl'
        have hnone : farthest 5 [] = none := rfl
        rw [hl, ht, hl'.1, List.nil_append, podScan_of_none hnone, podScan_of_not_pair not_pair_nil,
          podScan_nil]
        rfl
      · rw [podScan_of_not_pair hp, ih h, List.cons_append]
  | case4 =>
      rw [List.nil_append, podScan_of_not_pair not_pair_nil, podScan_nil]
      rfl

/-- A last word that the rule takes is gone with the words before it. -/
theorem podScan_of_reaches {l : List Segment} (h : reaches l = true) :
    ∃ kept, ∀ s, Final s → podScan (l ++ [s]) = kept ++ [.mark "pod".toList] := by
  induction l using reaches.induct with
  | case1 a b l hnear =>
      refine ⟨[], fun s hs => ?_⟩
      rw [List.cons_append, List.cons_append, podScan_of_some (farthest_append_of_near hnear hs),
        podScan_nil, List.nil_append]
  | case2 a b l hfar l' hsome ih =>
      rw [reaches_of_some hfar hsome] at h
      obtain ⟨kept, hkept⟩ := ih h
      refine ⟨.mark "pod".toList :: kept, fun s hs => ?_⟩
      have happend := farthest_append_of_not (s := s) fun hn => hfar hn.1
      rw [hsome] at happend
      rw [List.cons_append, List.cons_append, podScan_of_some happend, hkept s hs, List.cons_append]
  | case3 a b l hfar hnone ih =>
      rw [reaches_of_none hfar hnone] at h
      obtain ⟨kept, hkept⟩ := ih h
      refine ⟨.word a :: kept, fun s hs => ?_⟩
      have happend := farthest_append_of_not (s := s) fun hn => hfar hn.1
      rw [hnone] at happend
      have hscan := hkept s hs
      rw [List.cons_append] at hscan
      rw [List.cons_append, List.cons_append, podScan_of_none happend, hscan, List.cons_append]
  | case4 t l hpair ih =>
      have hpair : ¬ Pair t l := fun ⟨a, b, l', ht, hl⟩ => hpair a b l' ht hl
      rw [reaches_of_not_pair hpair] at h
      obtain ⟨kept, hkept⟩ := ih h
      have hl : l ≠ [] := by
        rintro rfl
        exact absurd h (by simp [reaches])
      refine ⟨t :: kept, fun s hs => ?_⟩
      rw [List.cons_append, podScan_of_not_pair fun hp => hpair (pair_append hp hl), hkept s hs,
        List.cons_append]
  | case5 => exact absurd h (by simp [reaches])

/-! ## What the rule takes -/

/-- `-[a-z0-9]+`. -/
def podMore : Pattern := .seq (literal '-') (plus lowerAlnum)

/-- `-[a-z0-9]{5}\b`. -/
def podFive : Pattern := .seq (literal '-') (.seq (times 5 lowerAlnum) .boundary)

theorem dash_run (t : Pattern) (p : Option Char) (s : List Char) :
    (matcher alnum (.seq (literal '-') t)).run (p, '-' :: s) = (matcher alnum t).run (some '-', s) := by
  have hdash : (matcher alnum (literal '-')).run (p, '-' :: s) = [(some '-', s)] := rfl
  show ((matcher alnum (literal '-')).run (p, '-' :: s)).flatMap _ = _
  rw [hdash, List.flatMap_cons, List.flatMap_nil, List.append_nil]

theorem dash_run_of_ne {c : Char} (hc : c ≠ '-') (t : Pattern) (p : Option Char) (s : List Char) :
    (matcher alnum (.seq (literal '-') t)).run (p, c :: s) = [] := by
  show ((matcher alnum (literal '-')).run (p, c :: s)).flatMap _ = _
  rw [literal, oneOf_singleton, run_set_cons, if_neg (by simpa [ClassItem.has] using hc),
    List.flatMap_nil]

theorem dash_run_nil (t : Pattern) (p : Option Char) :
    (matcher alnum (.seq (literal '-') t)).run (p, []) = [] := rfl

theorem ne_dash_of_lower {c : Char} (hc : isLowerAlnum c) : c ≠ '-' := by
  rintro rfl
  exact absurd hc (by decide)

theorem stops_of_head {z : List Char} (hz : z.head?.any isLowerAlnum = false) :
    Stops isLowerAlnum z := by
  intro c hc
  rw [hc] at hz
  exact hz

theorem dashed_stops (l : List Segment) : Stops isLowerAlnum (dashed l) := by
  apply stops_of_head
  cases l with
  | nil => rfl
  | cons s l =>
      rw [dashed_cons]
      rfl

/-- Letters are taken to the end of the word if what follows starts with a dash. -/
theorem lower_then {next : Position → List Position}
    (hnext : ∀ c s p, isLowerAlnum c → next (p, c :: s) = []) {w z : List Char}
    (hw : (Segment.word w).Ok) (hz : Stops isLowerAlnum z) (p : Option Char) :
    ((matcher alnum (plus lowerAlnum)).run (p, w ++ z)).flatMap next =
      next (w.getLast?.or p, z) := by
  show ((Regex.rep (matcher alnum lowerAlnum) 1 none).run (p, w ++ z)).flatMap next = _
  rw [matcher_lowerAlnum]
  exact rep_set_then hnext ⟨List.length_pos_of_ne_nil hw.ne_nil, by simp⟩ hz hw.lower p

theorem more_then {next : Position → List Position}
    (hnext : ∀ c s p, isLowerAlnum c → next (p, c :: s) = []) {w : List Char}
    (hw : (Segment.word w).Ok) (l : List Segment) (p : Option Char) :
    ((matcher alnum podMore).run (p, dashed (.word w :: l))).flatMap next =
      next (w.getLast?.or (some '-'), dashed l) := by
  rw [dashed_cons, podMore, dash_run]
  exact lower_then hnext hw (dashed_stops l) _

theorem five_run {w : List Char} (hw : (Segment.word w).Ok) (l : List Segment) (p : Option Char) :
    (matcher alnum podFive).run (p, dashed (.word w :: l)) =
      if w.length = 5 then [(w.getLast?.or (some '-'), dashed l)] else [] := by
  rw [dashed_cons, podFive, dash_run]
  show ((exactly 5 (matcher alnum lowerAlnum)).run (some '-', w ++ dashed l)).flatMap
    (Regex.boundary (isWord alnum)).run = _
  have hlower : ∀ c ∈ w, isLowerAlnum c := hw.lower
  have hword : ∀ c ∈ w, isWord alnum c := hw.word_chars
  have hne : w ≠ [] := hw.ne_nil
  rw [matcher_lowerAlnum]
  split_ifs with hlen
  · have hfive := run_exactly_set hlower (dashed l) (some '-')
    rw [hlen] at hfive
    rw [hfive, List.flatMap_cons, boundary_run_end hne hword (dashed_head l), List.flatMap_nil,
      List.append_nil]
  · by_cases hshort : w.length < 5
    · rw [run_exactly, times_set_of_short hshort (dashed_stops l) hlower, List.flatMap_nil]
    · -- five characters of a longer word do not end it
      have hlong : 5 < w.length := by omega
      obtain ⟨u, c, v, hu, rfl⟩ : ∃ u c v, u.length = 5 ∧ w = u ++ c :: v := by
        refine ⟨w.take 5, w[5], w.drop 6, by rw [List.length_take]; omega, ?_⟩
        rw [List.getElem_cons_drop, List.take_append_drop]
      have hfive := run_exactly_set (fun x hx => hlower x (List.mem_append_left _ hx))
        (c :: (v ++ dashed l)) (some '-')
      have hne : u ≠ [] := by
        rintro rfl
        exact absurd hu (by decide)
      rw [hu] at hfive
      rw [List.append_assoc, List.cons_append, hfive, List.flatMap_cons,
        boundary_run_inside hne (fun x hx => hword x (List.mem_append_left _ hx))
          (hword c (List.mem_append_right u List.mem_cons_self)), List.flatMap_nil]
      rfl

theorem lower_run_of_not {c : Char} (hc : isLowerAlnum c = false) {min : Nat} (hmin : 0 < min)
    (max : Option Nat) (p : Option Char) (s : List Char) :
    (matcher alnum (.rep lowerAlnum min max)).run (p, c :: s) = [] := by
  have hstops : Stops isLowerAlnum (c :: s) := by
    intro d hd
    obtain rfl : c = d := by simpa using hd
    exact hc
  show (Regex.rep (matcher alnum lowerAlnum) min max).run (p, c :: s) = []
  rw [matcher_lowerAlnum]
  exact rep_set_of_short (w := []) hmin hstops (by simp) max p

theorem podMore_mark (name : List Char) (l : List Segment) (p : Option Char) :
    (matcher alnum podMore).run (p, dashed (.mark name :: l)) = [] := by
  rw [dashed_cons, podMore, dash_run]
  exact lower_run_of_not (by decide) Nat.one_pos none _ _

theorem podFive_mark (name : List Char) (l : List Segment) (p : Option Char) :
    (matcher alnum podFive).run (p, dashed (.mark name :: l)) = [] := by
  rw [dashed_cons, podFive, dash_run]
  apply List.flatMap_eq_nil_iff.mpr
  intro q hq
  have hnil : (matcher alnum (.rep lowerAlnum 5 (some 5))).run
      (some '-', (Segment.mark name).text ++ dashed l) = [] :=
    lower_run_of_not (by decide) (by decide) _ _ _
  exact absurd (hnil ▸ hq) (by simp)

/-- Where the rule can end after up to `k` more words and one of five characters. -/
def podEnds (alnum : Char → Bool) (k : Nat) (q : Position) : List Position :=
  (upTo (matcher alnum podMore).run k q).flatMap (matcher alnum podFive).run

theorem podEnds_zero (q : Position) : podEnds alnum 0 q = (matcher alnum podFive).run q := by
  rw [podEnds, upTo, List.flatMap_cons, List.flatMap_nil, List.append_nil]

theorem podEnds_succ (k : Nat) (q : Position) :
    podEnds alnum (k + 1) q =
      ((matcher alnum podMore).run q).flatMap (podEnds alnum k) ++ (matcher alnum podFive).run q := by
  have hall : ((matcher alnum podMore).run q).filter (fun q' => q'.2.length < q.2.length) =
      (matcher alnum podMore).run q := by
    apply List.filter_eq_self.mpr
    intro q' hq'
    have hlen := length_of_mem_run _ q q' hq'
    have hmin : (matcher alnum podMore).minLength = 2 := rfl
    simp only [decide_eq_true_eq]
    omega
  rw [podEnds, upTo, hall, List.flatMap_append, List.flatMap_assoc, List.flatMap_cons,
    List.flatMap_nil, List.append_nil]
  rfl

theorem podEnds_of_ne {c : Char} (hc : c ≠ '-') (k : Nat) (p : Option Char) (s : List Char) :
    podEnds alnum k (p, c :: s) = [] := by
  cases k with
  | zero => rw [podEnds_zero, podFive, dash_run_of_ne hc]
  | succ k =>
      rw [podEnds_succ, podMore, podFive, dash_run_of_ne hc, dash_run_of_ne hc]
      rfl

theorem podEnds_word {w : List Char} (hw : (Segment.word w).Ok) (k : Nat) (l : List Segment)
    (p : Option Char) :
    podEnds alnum (k + 1) (p, dashed (.word w :: l)) =
      podEnds alnum k (w.getLast?.or (some '-'), dashed l) ++
        if w.length = 5 then [(w.getLast?.or (some '-'), dashed l)] else [] := by
  have hnext : ∀ c s p, isLowerAlnum c → podEnds alnum k (p, c :: s) = [] :=
    fun c s p hc => podEnds_of_ne (ne_dash_of_lower hc) k p s
  rw [podEnds_succ, more_then hnext hw, five_run hw]

theorem podEnds_stop {l : List Segment} (hl : ∀ w l', l ≠ .word w :: l') (k : Nat)
    (p : Option Char) : podEnds alnum k (p, dashed l) = [] := by
  match l, hl with
  | [], _ =>
      cases k with
      | zero => rw [podEnds_zero, dashed_nil, podFive, dash_run_nil]
      | succ k =>
          rw [podEnds_succ, dashed_nil, podFive, podMore, dash_run_nil, dash_run_nil]
          rfl
  | .mark name :: l, _ =>
      cases k with
      | zero => rw [podEnds_zero, podFive_mark]
      | succ k =>
          rw [podEnds_succ, podFive_mark, podMore_mark]
          rfl
  | .word w :: l, hl => exact absurd rfl (hl w l)

theorem podEnds_of_none {k : Nat} {l : List Segment} (hok : ∀ s ∈ l, s.Ok)
    (h : farthest k l = none) (p : Option Char) : podEnds alnum k (p, dashed l) = [] := by
  induction k generalizing l p with
  | zero =>
      match l, h with
      | [], _ => exact podEnds_stop (by simp) 0 p
      | .mark name :: l, _ => exact podEnds_stop (by simp) 0 p
      | .word w :: l, h =>
          rw [farthest] at h
          split_ifs at h with hfive
          rw [podEnds_zero, five_run (hok _ List.mem_cons_self), if_neg hfive]
  | succ k ih =>
      match l, h with
      | [], _ => exact podEnds_stop (by simp) (k + 1) p
      | .mark name :: l, _ => exact podEnds_stop (by simp) (k + 1) p
      | .word w :: l, h =>
          obtain ⟨hw, hl⟩ := List.forall_mem_cons.mp hok
          rw [farthest, Option.or_eq_none_iff] at h
          have hfive : ¬ w.length = 5 := by
            intro hfive
            rw [if_pos hfive] at h
            exact absurd h.2 (by simp)
          rw [podEnds_word hw, ih hl h.1, if_neg hfive, List.append_nil]

/-- The first end is behind the farthest word of five characters. -/
theorem podEnds_of_some {k : Nat} {l l' : List Segment} (hok : ∀ s ∈ l, s.Ok)
    (h : farthest k l = some l') (p : Option Char) :
    ∃ p' ends, podEnds alnum k (p, dashed l) = (p', dashed l') :: ends := by
  induction k generalizing l p with
  | zero =>
      match l, h with
      | .word w :: l, h =>
          rw [farthest] at h
          split_ifs at h with hfive
          rw [podEnds_zero, five_run (hok _ List.mem_cons_self), if_pos hfive, Option.some.inj h]
          exact ⟨_, [], rfl⟩
  | succ k ih =>
      match l, h with
      | .word w :: l, h =>
          obtain ⟨hw, hl⟩ := List.forall_mem_cons.mp hok
          rw [podEnds_word hw]
          rw [farthest] at h
          -- the greedy match goes on as far as it can, and ends here otherwise
          rcases Option.or_eq_some_iff.mp h with h | ⟨hnone, h⟩
          · obtain ⟨p', ends, hends⟩ := ih hl h (w.getLast?.or (some '-'))
            exact ⟨p', _, by rw [hends, List.cons_append]⟩
          · split_ifs at h with hfive
            rw [podEnds_of_none hl hnone, if_pos hfive, Option.some.inj h]
            exact ⟨_, [], rfl⟩

/-! ## Pod names in a name -/

/-- The rule behind its first word. -/
def podTail : Pattern := .seq (.rep podMore 1 (some 6)) podFive

theorem podTail_run (q : Position) :
    (matcher alnum podTail).run q = ((matcher alnum podMore).run q).flatMap (podEnds alnum 5) := by
  have hone : Regex.times (matcher alnum podMore).run 1 q = (matcher alnum podMore).run q := by
    rw [Regex.times]
    exact List.flatMap_pure_eq_map _ _ |>.trans (List.map_id _)
  show ((Regex.rep (matcher alnum podMore) 1 (some 6)).run q).flatMap _ = _
  rw [run_rep, hone, List.flatMap_assoc]
  rfl

theorem podTail_of_ne {c : Char} (hc : c ≠ '-') (p : Option Char) (s : List Char) :
    (matcher alnum podTail).run (p, c :: s) = [] := by
  rw [podTail_run, podMore, dash_run_of_ne hc, List.flatMap_nil]

theorem podTail_word {w : List Char} (hw : (Segment.word w).Ok) (l : List Segment)
    (p : Option Char) :
    (matcher alnum podTail).run (p, dashed (.word w :: l)) =
      podEnds alnum 5 (w.getLast?.or (some '-'), dashed l) := by
  rw [podTail_run]
  exact more_then (fun c s p hc => podEnds_of_ne (ne_dash_of_lower hc) 5 p s) hw l p

theorem podTail_stop {l : List Segment} (hl : ∀ w l', l ≠ .word w :: l') (p : Option Char) :
    (matcher alnum podTail).run (p, dashed l) = [] := by
  rw [podTail_run]
  match l, hl with
  | [], _ => rfl
  | .mark name :: l, _ => rw [podMore_mark, List.flatMap_nil]
  | .word w :: l, hl => exact absurd rfl (hl w l)

theorem podRest_run {w z : List Char} (hw : (Segment.word w).Ok) (hz : Stops isLowerAlnum z)
    (p : Option Char) :
    (matcher alnum (rest podRule)).run (p, w ++ z) =
      (matcher alnum podTail).run (w.getLast?.or p, z) :=
  lower_then (fun _ s p hc => podTail_of_ne (ne_dash_of_lower hc) p s) hw hz p

theorem podRule_reads : Reads (matcher alnum (rest podRule)) where
  dash p z := by
    show ((matcher alnum (plus lowerAlnum)).run (p, '-' :: z)).flatMap _ = []
    rw [plus, lower_run_of_not (by decide) Nat.one_pos, List.flatMap_nil]
  close p z := by
    show ((matcher alnum (plus lowerAlnum)).run (p, '>' :: z)).flatMap _ = []
    rw [plus, lower_run_of_not (by decide) Nat.one_pos, List.flatMap_nil]
  overlooks := rfl

/-- The pod names of a name are replaced. -/
theorem pod_of_name {l : List Segment} (hok : ∀ s ∈ l, s.Ok) :
    Becomes "<pod>".toList alnum (matcher alnum (rest podRule)) l (podScan l) := by
  induction l using podScan.induct with
  | case1 a b l l' hsome ih =>
      obtain ⟨ha, hrest⟩ := List.forall_mem_cons.mp hok
      obtain ⟨hb, hl⟩ := List.forall_mem_cons.mp hrest
      obtain ⟨s, front, hsplit⟩ := farthest_split hsome
      have hl' : ∀ t ∈ l', t.Ok := fun t ht => hl t (by rw [hsplit]; simp [ht])
      obtain ⟨p', ends, hends⟩ := podEnds_of_some hl hsome (b.getLast?.or (some '-'))
      have hstart : First (.boundary (isWord alnum)) (none, a ++ dashed (.word b :: l))
          (none, a ++ dashed (.word b :: l)) := by
        obtain ⟨c, v, rfl⟩ := List.exists_cons_of_ne_nil (show a ≠ [] from ha.ne_nil)
        exact first_start rfl (ha.word_chars c List.mem_cons_self) _
      -- the first match of the rule ends where the farthest one does
      have hbody : First (matcher alnum (rest podRule)) (none, a ++ dashed (.word b :: l))
          (p', dashed l') := by
        refine ⟨ends, ?_⟩
        rw [podRest_run ha (dashed_stops _), podTail_word hb, hends]
      rw [podScan_of_some hsome]
      refine Becomes.replace "pod".toList podRule_reads (by simp) (hstart.seq hbody) ?_ (ih hl')
      show (dashed l').length < (a ++ dashed (.word b :: l)).length
      rw [hsplit, dashed_cons, dashed_cons, dashed_append]
      simp only [List.length_append, List.length_cons]
      omega
  | case2 a b l hnone ih =>
      obtain ⟨ha, hrest⟩ := List.forall_mem_cons.mp hok
      obtain ⟨hb, hl⟩ := List.forall_mem_cons.mp hrest
      rw [podScan_of_none hnone]
      refine Becomes.keep_word ha podRule_reads ?_ (ih hrest)
      rw [podRest_run ha (dashed_stops _), podTail_word hb, podEnds_of_none hl hnone]
  | case3 s l hpair ih =>
      obtain ⟨hs, hl⟩ := List.forall_mem_cons.mp hok
      rw [podScan_of_not_pair fun ⟨a, b, l', hs, hl⟩ => hpair a b l' hs hl]
      cases s with
      | word a =>
          refine Becomes.keep_word hs podRule_reads ?_ (ih hl)
          rw [podRest_run hs (dashed_stops _)]
          exact podTail_stop (fun b l' h => hpair a b l' rfl h) _
      | mark name =>
          have hname : (Segment.word name).Ok := ⟨hs.ne_nil, hs.lower, by simp [Segment.isPlain]⟩
          refine Becomes.keep_mark hs podRule_reads ?_ (ih hl)
          intro z
          rw [podRest_run hname (stops_of_head rfl), podTail_of_ne (by decide)]
  | case4 =>
      rw [podScan_nil]
      exact Becomes.nil

theorem podScan_ok {l : List Segment} (hok : ∀ s ∈ l, s.Ok) : ∀ s ∈ podScan l, s.Ok := by
  induction l using podScan.induct with
  | case1 a b l l' hsome ih =>
      obtain ⟨s, front, hsplit⟩ := farthest_split hsome
      rw [podScan_of_some hsome]
      refine List.forall_mem_cons.mpr ⟨⟨by decide, by decide, by decide⟩, ih fun t ht => hok t ?_⟩
      rw [hsplit]
      simp [ht]
  | case2 a b l hnone ih =>
      obtain ⟨ha, hrest⟩ := List.forall_mem_cons.mp hok
      rw [podScan_of_none hnone]
      exact List.forall_mem_cons.mpr ⟨ha, ih hrest⟩
  | case3 s l hpair ih =>
      obtain ⟨hs, hl⟩ := List.forall_mem_cons.mp hok
      rw [podScan_of_not_pair fun ⟨a, b, l', hs, hl⟩ => hpair a b l' hs hl]
      exact List.forall_mem_cons.mpr ⟨hs, ih hl⟩
  | case4 => simp

end ArgoExporter.FailureTaxonomy
