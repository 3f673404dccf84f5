/-
  ArgoExporter.FailureTaxonomy.Durations

  Which words are durations.  A word of small letters and digits is taken by
  the duration rule exactly when it is numbers with units of time, one after
  another.
-/

import ArgoExporter.FailureTaxonomy.Segments

namespace ArgoExporter.FailureTaxonomy

open ArgoExporter.Lib
open ArgoExporter.Lib.Regex
open ArgoExporter.Py

variable {alnum : Char → Bool}

/-! ## Durations -/

def timeUnits : List (List Char) :=
  [['m', 's'], ['u', 's'], ['µ', 's'], ['n', 's'], ['h'], ['m'], ['s']]

/-- A whole number with its unit, before `r`. -/
def Part (w r : List Char) : Prop :=
  ∃ n u, n ≠ [] ∧ (∀ c ∈ n, isDigit c) ∧ u ∈ timeUnits ∧ w = n ++ (u ++ r)

/-- Whole numbers with units of time, as `300ms` and `1h2m3s`. -/
inductive IsDuration : List Char → Prop
  | last {w : List Char} : Part w [] → IsDuration w
  | more {w r : List Char} : Part w r → IsDuration r → IsDuration w

/-- `IsDuration`, in at most `k` parts. -/
def durationParts : Nat → List Char → Bool
  | 0, _ => false
  | k + 1, w =>
      let number := w.takeWhile isDigit
      let behind := w.dropWhile isDigit
      !number.isEmpty && timeUnits.any fun u => u.isPrefixOf behind &&
        ((behind.drop u.length).isEmpty || durationParts k (behind.drop u.length))

theorem isDuration_of_parts {k : Nat} {w : List Char} (h : durationParts k w) : IsDuration w := by
  induction k generalizing w with
  | zero => exact absurd h (by simp [durationParts])
  | succ k ih =>
      rw [durationParts, Bool.and_eq_true, List.any_eq_true] at h
      obtain ⟨hnumber, u, hu, h⟩ := h
      rw [Bool.and_eq_true, List.isPrefixOf_iff_prefix, Bool.or_eq_true] at h
      obtain ⟨⟨r, hr⟩, h⟩ := h
      rw [← hr, List.drop_left] at h
      have hpart : Part w r := by
        refine ⟨w.takeWhile isDigit, u, by simpa using hnumber,
          fun c hc => List.mem_takeWhile_imp hc, hu, ?_⟩
        rw [hr, List.takeWhile_append_dropWhile]
      rcases h with h | h
      · exact .last (List.isEmpty_iff.mp h ▸ hpart)
      · exact .more hpart (ih h)

theorem unit_head {u : List Char} (hu : u ∈ timeUnits) :
    ∃ c v, u = c :: v ∧ (decimal? c).isSome = false ∧ isDigit c = false := by
  simp only [timeUnits, List.mem_cons, List.not_mem_nil, or_false] at hu
  rcases hu with rfl | rfl | rfl | rfl | rfl | rfl | rfl <;> exact ⟨_, _, rfl, by decide, by decide⟩

theorem Part.length_lt {w r : List Char} (h : Part w r) : r.length < w.length := by
  obtain ⟨n, u, hne, -, -, rfl⟩ := h
  have hpos := List.length_pos_of_ne_nil hne
  rw [List.length_append, List.length_append]
  omega

theorem durationParts_of_part {w r : List Char} (h : Part w r) {k : Nat}
    (hr : r = [] ∨ durationParts k r) : durationParts (k + 1) w := by
  obtain ⟨n, u, hne, hn, hu, rfl⟩ := h
  obtain ⟨c, v, rfl, _, hc⟩ := unit_head hu
  have hnumber : (n ++ (c :: v ++ r)).takeWhile isDigit = n := by
    rw [List.takeWhile_append_of_pos hn, List.cons_append, List.takeWhile_cons_of_neg (by simp [hc]),
      List.append_nil]
  have hbehind : (n ++ (c :: v ++ r)).dropWhile isDigit = c :: v ++ r := by
    rw [List.dropWhile_append_of_pos hn, List.cons_append, List.dropWhile_cons_of_neg (by simp [hc])]
  rw [durationParts, hnumber, hbehind, Bool.and_eq_true, List.any_eq_true]
  refine ⟨by simpa using hne, c :: v, hu, ?_⟩
  rw [Bool.and_eq_true, List.isPrefixOf_iff_prefix, List.drop_left, Bool.or_eq_true]
  exact ⟨List.prefix_append _ _, hr.imp_left List.isEmpty_iff.mpr⟩

theorem parts_of_isDuration {w : List Char} (h : IsDuration w) :
    ∀ k, w.length ≤ k → durationParts k w := by
  induction h with
  | last hpart =>
      intro k hk
      have hlt := hpart.length_lt
      cases k with
      | zero => omega
      | succ k => exact durationParts_of_part hpart (Or.inl rfl)
  | more hpart _ ih =>
      intro k hk
      have hlt := hpart.length_lt
      cases k with
      | zero => omega
      | succ k => exact durationParts_of_part hpart (Or.inr (ih k (by omega)))

instance : DecidablePred IsDuration := fun w =>
  decidable_of_iff (durationParts w.length w = true)
    ⟨isDuration_of_parts, fun h => parts_of_isDuration h w.length (Nat.le_refl _)⟩

/-! ## What the rule takes -/

theorem only_digits : (matcher alnum (plus digit)).Only fun c => (decimal? c).isSome := by
  show (matcher alnum digit).Only _
  rw [digit, oneOf_singleton]
  exact fun c hc => hc

theorem mem_timeUnit_run {q q' : Position} (h : q' ∈ (matcher alnum timeUnit).run q) :
    ∃ u ∈ timeUnits, q.2 = u ++ q'.2 := by
  have htwo : ∀ {c d : Char}, q' ∈ (matcher alnum (.seq (literal c) (literal d))).run q →
      q.2 = [c, d] ++ q'.2 := by
    intro c d h
    obtain ⟨m, hm, h⟩ := List.mem_flatMap.mp h
    rw [mem_literal_run hm, mem_literal_run h]
    rfl
  rcases List.mem_append.mp h with h | h
  · exact ⟨_, by simp [timeUnits], htwo h⟩
  rcases List.mem_append.mp h with h | h
  · exact ⟨_, by simp [timeUnits], htwo h⟩
  rcases List.mem_append.mp h with h | h
  · exact ⟨_, by simp [timeUnits], htwo h⟩
  rcases List.mem_append.mp h with h | h
  · exact ⟨_, by simp [timeUnits], htwo h⟩
  rcases List.mem_append.mp h with h | h
  · exact ⟨['h'], by simp [timeUnits], mem_literal_run h⟩
  rcases List.mem_append.mp h with h | h
  · exact ⟨['m'], by simp [timeUnits], mem_literal_run h⟩
  · exact ⟨['s'], by simp [timeUnits], mem_literal_run h⟩

/-- Without a dot there are no decimals. -/
theorem mem_decimals_run {q q' : Position} (hdot : '.' ∉ q.2)
    (h : q' ∈ (matcher alnum decimals).run q) : q' = q := by
  have hneeds : (matcher alnum (.seq (literal '.') (plus digit))).Needs (· = '.') :=
    Or.inl (literal_needs '.')
  have hnil := run_of_lacks hneeds (q := q) fun c hc h => hdot (h ▸ hc)
  have h : q' ∈ (Regex.opt (matcher alnum (.seq (literal '.') (plus digit)))).run q := h
  rw [run_opt_of_nil hnil] at h
  exact List.mem_singleton.mp h

/-- A number with decimals and a unit takes, in a word, a part of a duration. -/
theorem part_of_mem_run {q m₁ m₂ m₃ : Position} (hq : ∀ c ∈ q.2, isLowerAlnum c)
    (hnumber : m₁ ∈ (matcher alnum (plus digit)).run q)
    (hdecimals : m₂ ∈ (matcher alnum decimals).run m₁)
    (hunit : m₃ ∈ (matcher alnum timeUnit).run m₂) : Part q.2 m₃.2 := by
  obtain ⟨n, hn, hdigits⟩ := over_of_mem_run only_digits q m₁ hnumber
  have hlen := length_of_mem_run _ q m₁ hnumber
  -- a segment of a pod name has no dot, so there are no decimals
  have hdot : '.' ∉ m₁.2 := by
    intro hdot
    exact absurd (hq '.' (hn ▸ List.mem_append_right n hdot)) (by decide)
  obtain rfl := mem_decimals_run hdot hdecimals
  obtain ⟨u, hu, htext⟩ := mem_timeUnit_run hunit
  refine ⟨n, u, ?_, ?_, hu, by rw [hn, htext]⟩
  · rintro rfl
    have hone : (matcher alnum (plus digit)).minLength = 1 := rfl
    rw [hn, List.nil_append] at hlen
    omega
  · exact fun c hc => isDigit_of_decimal (hq c (hn ▸ List.mem_append_left _ hc)) (hdigits c hc)

/-- `\d+(?:\.\d+)?(?:ms|us|µs|ns|h|m|s)`. -/
def durationPart : Pattern := .seq (plus digit) (.seq decimals timeUnit)

theorem part_of_mem_durationPart {q q' : Position} (hq : ∀ c ∈ q.2, isLowerAlnum c)
    (h : q' ∈ (matcher alnum durationPart).run q) : Part q.2 q'.2 := by
  obtain ⟨m₁, hnumber, h⟩ := List.mem_flatMap.mp h
  obtain ⟨m₂, hdecimals, hunit⟩ := List.mem_flatMap.mp h
  exact part_of_mem_run hq hnumber hdecimals hunit

theorem Part.rest_lower {w r : List Char} (h : Part w r) (hw : ∀ c ∈ w, isLowerAlnum c) :
    ∀ c ∈ r, isLowerAlnum c := by
  obtain ⟨n, u, -, -, -, rfl⟩ := h
  exact fun c hc => hw c (List.mem_append_right _ (List.mem_append_right _ hc))

theorem Part.isDuration {w r : List Char} (h : Part w r) (hr : r = [] ∨ IsDuration r) :
    IsDuration w := by
  rcases hr with rfl | hr
  · exact .last h
  · exact .more h hr

/-- More parts up to the end of a word are a duration. -/
theorem isDuration_of_mem_upTo {n : Nat} {q q' : Position} (hq : ∀ c ∈ q.2, isLowerAlnum c)
    (h : q' ∈ upTo (matcher alnum durationPart).run n q) (hend : q'.2 = []) :
    q.2 = [] ∨ IsDuration q.2 := by
  induction n generalizing q with
  | zero =>
      rw [← List.mem_singleton.mp h]
      exact Or.inl hend
  | succ n ih =>
      rcases List.mem_append.mp h with h | h
      · obtain ⟨m, hm, h⟩ := List.mem_flatMap.mp h
        have hpart := part_of_mem_durationPart hq (List.mem_of_mem_filter hm)
        exact Or.inr (hpart.isDuration (ih (hpart.rest_lower hq) h))
      · rw [← List.mem_singleton.mp h]
        exact Or.inl hend

theorem isDuration_of_mem_run {w : List Char} (hw : ∀ c ∈ w, isLowerAlnum c) {q : Position}
    (h : q ∈ (matcher alnum (rest durRule)).run (none, w)) : IsDuration w := by
  -- the closing boundary is the end of the word
  have hend : q.2 = [] := whole_of_mem_run durRule_word.closed durRule_word.takes
    (fun c hc => isWord_of_isLowerAlnum (hw c hc)) h
  obtain ⟨m₁, hnumber, h⟩ := List.mem_flatMap.mp h
  obtain ⟨m₂, hdecimals, h⟩ := List.mem_flatMap.mp h
  obtain ⟨m₃, hunit, h⟩ := List.mem_flatMap.mp h
  obtain ⟨m₄, hmore, h⟩ := List.mem_flatMap.mp h
  have hpart : Part w m₃.2 := part_of_mem_run hw hnumber hdecimals hunit
  apply hpart.isDuration
  have hmore : m₄ ∈ upTo (matcher alnum durationPart).run m₃.2.length m₃ := by
    have hmore : m₄ ∈ (Regex.rep (matcher alnum durationPart) 0 none).run m₃ := hmore
    rwa [run_rep, Regex.times, List.flatMap_cons, List.flatMap_nil, List.append_nil] at hmore
  rw [mem_run_boundary h] at hend
  exact isDuration_of_mem_upTo (hpart.rest_lower hw) hmore hend

/-! ## What a duration is taken by -/

theorem mem_timeUnit {u : List Char} (hu : u ∈ timeUnits) (p : Option Char) (r : List Char) :
    ∃ p', (p', r) ∈ (matcher alnum timeUnit).run (p, u ++ r) := by
  have hone : ∀ c p, (some c, r) ∈ (matcher alnum (literal c)).run (p, c :: r) :=
    fun c p => (first_literal c p r).mem
  have htwo : ∀ c d p, (some d, r) ∈ (matcher alnum (.seq (literal c) (literal d))).run
      (p, c :: d :: r) := fun c d p => ((first_literal c p _).seq (first_literal d _ r)).mem
  simp only [timeUnits, List.mem_cons, List.not_mem_nil, or_false] at hu
  rcases hu with rfl | rfl | rfl | rfl | rfl | rfl | rfl
  · exact ⟨_, List.mem_append_left _ (htwo 'm' 's' p)⟩
  · exact ⟨_, List.mem_append_right _ (List.mem_append_left _ (htwo 'u' 's' p))⟩
  · exact ⟨_, List.mem_append_right _ (List.mem_append_right _
      (List.mem_append_left _ (htwo 'µ' 's' p)))⟩
  · exact ⟨_, List.mem_append_right _ (List.mem_append_right _ (List.mem_append_right _
      (List.mem_append_left _ (htwo 'n' 's' p))))⟩
  · exact ⟨_, List.mem_append_right _ (List.mem_append_right _ (List.mem_append_right _
      (List.mem_append_right _ (List.mem_append_left _ (hone 'h' p)))))⟩
  · exact ⟨_, List.mem_append_right _ (List.mem_append_right _ (List.mem_append_right _
      (List.mem_append_right _ (List.mem_append_right _ (List.mem_append_left _ (hone 'm' p))))))⟩
  · exact ⟨_, List.mem_append_right _ (List.mem_append_right _ (List.mem_append_right _
      (List.mem_append_right _ (List.mem_append_right _ (List.mem_append_right _ (hone 's' p))))))⟩

/-- A part of a duration is taken by a number, no decimals and a unit. -/
theorem mem_run_of_part {w r : List Char} (h : Part w r) (p : Option Char) :
    ∃ m p', m ∈ (matcher alnum (plus digit)).run (p, w) ∧ m ∈ (matcher alnum decimals).run m ∧
      (p', r) ∈ (matcher alnum timeUnit).run m := by
  obtain ⟨n, u, hne, hn, hu, rfl⟩ := h
  -- no unit starts with a digit, so the number ends where the digits do
  have hstops : Stops (ClassItem.digit.has (reKinds alnum)) (u ++ r) := by
    obtain ⟨c, v, rfl, hc, _⟩ := unit_head hu
    intro d hd
    obtain rfl : c = d := by simpa using hd
    exact hc
  have hnumber : First (matcher alnum (plus digit)) (p, n ++ (u ++ r))
      (n.getLast?.or p, u ++ r) := by
    show First (Regex.plus (matcher alnum digit)) _ _
    rw [digit, oneOf_singleton]
    exact First.rep_set ⟨List.length_pos_of_ne_nil hne, by simp⟩ hstops
      (fun c hc => digitHas_of_isDigit (hn c hc)) p
  obtain ⟨p', hunit⟩ := mem_timeUnit hu (n.getLast?.or p) r
  exact ⟨_, p', hnumber.mem, mem_run_rep_zero _ _ _, hunit⟩

theorem mem_parts_of_isDuration {w : List Char} (h : IsDuration w) (p : Option Char) :
    ∃ p', (p', []) ∈ (matcher alnum (.rep durationPart 0 none)).run (p, w) := by
  have hpart : ∀ {w r}, Part w r → ∀ p, ∃ p', (p', r) ∈ (matcher alnum durationPart).run (p, w) := by
    intro w r hpart p
    obtain ⟨m, p', hnumber, hdecimals, hunit⟩ := mem_run_of_part hpart p
    exact ⟨p', List.mem_flatMap.mpr ⟨m, hnumber, List.mem_flatMap.mpr ⟨m, hdecimals, hunit⟩⟩⟩
  induction h generalizing p with
  | last h =>
      obtain ⟨p', hm⟩ := hpart h p
      exact ⟨p', mem_run_rep_step hm h.length_lt (mem_run_rep_zero _ _ _)⟩
  | more h _ ih =>
      obtain ⟨p', hm⟩ := hpart h p
      obtain ⟨p'', hrest⟩ := ih p'
      exact ⟨p'', mem_run_rep_step hm h.length_lt hrest⟩

theorem mem_run_of_isDuration {w : List Char} (hw : ∀ c ∈ w, isLowerAlnum c) (h : IsDuration w) :
    ∃ q, q ∈ (matcher alnum (rest durRule)).run (none, w) := by
  obtain ⟨r, hpart, hr⟩ : ∃ r, Part w r ∧ (r = [] ∨ IsDuration r) := by
    cases h with
    | last h => exact ⟨[], h, Or.inl rfl⟩
    | more h hr => exact ⟨_, h, Or.inr hr⟩
  obtain ⟨m, p', hnumber, hdecimals, hunit⟩ := mem_run_of_part hpart none
  obtain ⟨p'', hmore⟩ : ∃ p'', (p'', []) ∈
      (matcher alnum (.rep durationPart 0 none)).run (p', r) := by
    rcases hr with rfl | hr
    · exact ⟨p', mem_run_rep_zero _ _ _⟩
    · exact mem_parts_of_isDuration hr p'
  -- the last character that was taken is the last of the word
  obtain ⟨v, hv, hlast⟩ := (((run_moves _ _ _ hnumber).trans (run_moves _ _ _ hdecimals)).trans
    (run_moves _ _ _ hunit)).trans (run_moves _ _ _ hmore)
  have hv : w = v := hv.trans (List.append_nil v)
  have hlast : p'' = w.getLast?.or none := hv ▸ hlast
  have hne : w ≠ [] := List.ne_nil_of_length_pos (Nat.lt_of_le_of_lt (Nat.zero_le _) hpart.length_lt)
  have hend : First (.boundary (isWord alnum)) (p'', []) (p'', []) := by
    rw [hlast]
    exact first_end hne (fun c hc => isWord_of_isLowerAlnum (hw c hc)) rfl none
  exact ⟨(p'', []), List.mem_flatMap.mpr ⟨m, hnumber, List.mem_flatMap.mpr ⟨m, hdecimals,
    List.mem_flatMap.mpr ⟨(p', r), hunit, List.mem_flatMap.mpr ⟨(p'', []), hmore, hend.mem⟩⟩⟩⟩⟩

/-- The duration rule replaces a word exactly when it is a duration. -/
theorem substitute_duration {w : List Char} (hw : ∀ c ∈ w, isLowerAlnum c) :
    substitute alnum (durRule, "<dur>") w = if IsDuration w then "<dur>".toList else w := by
  rw [substitute_word durRule_word fun c hc => isWord_of_isLowerAlnum (hw c hc)]
  split_ifs with hempty hdur hdur
  · obtain ⟨q, hq⟩ := mem_run_of_isDuration hw hdur
    rw [List.isEmpty_iff.mp hempty] at hq
    exact absurd hq (by simp)
  · rfl
  · rfl
  · obtain ⟨q, l, hq⟩ := List.exists_cons_of_ne_nil (mt List.isEmpty_iff.mpr hempty)
    exact absurd (isDuration_of_mem_run hw (hq ▸ List.mem_cons_self)) hdur

/-! ## Durations in a name -/

/-- A segment after the duration rule. -/
def durationMark : Segment → Segment
  | .word w => if IsDuration w then .mark "dur".toList else .word w
  | .mark name => .mark name

theorem durationMark_ok {s : Segment} (h : s.Ok) : (durationMark s).Ok := by
  cases s with
  | word w =>
      rw [durationMark]
      split_ifs
      · exact ⟨by decide, by decide, by decide⟩
      · exact h
  | mark name => exact h

theorem substitute_duration_of_name {l : List Segment} (hok : ∀ s ∈ l, s.Ok) :
    substitute alnum (durRule, "<dur>") (joined l) = joined (l.map durationMark) := by
  apply sub_joined rfl
  intro s hs
  cases s with
  | word w =>
      have hlower : ∀ c ∈ w, isLowerAlnum c := (hok _ hs).lower
      show substitute alnum (durRule, "<dur>") w = _
      rw [substitute_duration hlower, durationMark]
      split_ifs <;> rfl
  | mark name => exact substitute_mark (by simp [rules]) (hok _ hs)

end ArgoExporter.FailureTaxonomy
