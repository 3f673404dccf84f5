/-
  ArgoExporter.FailureTaxonomy.Tokens

  What the rules make of a number, a UUID, a timestamp and an IPv4 address.  A
  rule that needs a character the token lacks leaves it alone, so each token
  comes to the first rule that can match it.
-/

import ArgoExporter.FailureTaxonomy.Context

namespace ArgoExporter.FailureTaxonomy

open ArgoExporter.Lib
open ArgoExporter.Lib.Regex
open ArgoExporter.Py

variable {alnum : Char → Bool}

/-! ## Characters -/

def isDigit (c : Char) : Bool := '0' ≤ c ∧ c ≤ '9'

/-- A lowercase hexadecimal digit. -/
def isHex (c : Char) : Bool := isDigit c || ('a' ≤ c ∧ c ≤ 'f' : Bool)

def isLowerAlnum (c : Char) : Bool := ('a' ≤ c ∧ c ≤ 'z' : Bool) || isDigit c

theorem isHex_of_isDigit {c : Char} (h : isDigit c) : isHex c := by
  rw [isHex, h, Bool.true_or]

theorem isLowerAlnum_of_isHex {c : Char} (h : isHex c) : isLowerAlnum c := by
  rw [isHex, Bool.or_eq_true, decide_eq_true_eq] at h
  rw [isLowerAlnum, Bool.or_eq_true, decide_eq_true_eq]
  rcases h with h | ⟨ha, hf⟩
  · exact Or.inr h
  · exact Or.inl ⟨ha, le_trans hf (by decide)⟩

theorem isLowerAlnum_of_isDigit {c : Char} (h : isDigit c) : isLowerAlnum c :=
  isLowerAlnum_of_isHex (isHex_of_isDigit h)

theorem range_toNat {c : Char} (h : isLowerAlnum c) :
    97 ≤ c.toNat ∧ c.toNat ≤ 122 ∨ 48 ≤ c.toNat ∧ c.toNat ≤ 57 := by
  rw [isLowerAlnum, isDigit, Bool.or_eq_true, decide_eq_true_eq, decide_eq_true_eq] at h
  exact h

/-- Small letters and digits are word characters. -/
theorem isWord_of_isLowerAlnum {c : Char} (h : isLowerAlnum c) : isWord alnum c := by
  have hrange := range_toNat h
  have halnum : c.isAlphanum := by
    rw [isLowerAlnum, isDigit, Bool.or_eq_true, decide_eq_true_eq, decide_eq_true_eq] at h
    show ((c.isUpper || c.isLower) || c.isDigit) = true
    rw [Bool.or_eq_true, Bool.or_eq_true]
    rcases h with h | h
    · refine Or.inl (Or.inr ?_)
      show (decide (c.val ≥ 'a'.val) && decide (c.val ≤ 'z'.val)) = true
      rw [Bool.and_eq_true, decide_eq_true_eq, decide_eq_true_eq]
      exact h
    · refine Or.inr ?_
      show (decide (c.val ≥ '0'.val) && decide (c.val ≤ '9'.val)) = true
      rw [Bool.and_eq_true, decide_eq_true_eq, decide_eq_true_eq]
      exact h
  rw [isWord, if_pos (by omega), halnum]
  rfl

theorem decimal?_isSome_of_isDigit {c : Char} (h : isDigit c) : (decimal? c).isSome := by
  rw [isDigit, decide_eq_true_eq] at h
  have hrange : 48 ≤ c.toNat ∧ c.toNat < 48 + 10 := ⟨h.1, Nat.lt_succ_of_le h.2⟩
  rw [decimal?, decimalZeros, List.findSome?_cons, if_pos hrange]
  rfl

theorem oneOf_singleton (item : ClassItem) :
    matcher alnum (.items false [item]) = .set (item.has (reKinds alnum)) := by
  show Regex.set (fun c => [item].any fun item => item.has (reKinds alnum) c) = _
  simp

theorem matcher_decimal : matcher alnum (.items false [.range '0' '9']) = .set isDigit :=
  oneOf_singleton _

theorem matcher_hex : matcher alnum hex = .set isHex := by
  show Regex.set (fun c => [ClassItem.range '0' '9', .range 'a' 'f'].any
    fun item => item.has (reKinds alnum) c) = _
  congr 1
  funext c
  simp [ClassItem.has, isHex, isDigit]

theorem matcher_lowerAlnum : matcher alnum lowerAlnum = .set isLowerAlnum := by
  show Regex.set (fun c => [ClassItem.range 'a' 'z', .range '0' '9'].any
    fun item => item.has (reKinds alnum) c) = _
  congr 1
  funext c
  simp [ClassItem.has, isLowerAlnum, isDigit]

/-! ## What the rules need -/

theorem literal_needs (c : Char) : (matcher alnum (literal c)).Needs (· = c) := by
  rw [literal, oneOf_singleton]
  intro d hd
  simpa [ClassItem.has] using hd

theorem digit_needs : (matcher alnum digit).Needs fun c => (decimal? c).isSome := by
  rw [digit, oneOf_singleton]
  exact fun c hc => hc

theorem timeUnit_needs {p : Char → Prop} (hh : p 'h') (hm : p 'm') (hs : p 's') :
    (matcher alnum timeUnit).Needs p := by
  have hliteral : ∀ c, p c → (matcher alnum (literal c)).Needs p := fun c hc =>
    (literal_needs c).mono fun d hd => hd ▸ hc
  exact ⟨Or.inl (hliteral 'm' hm), Or.inr (hliteral 's' hs), Or.inr (hliteral 's' hs),
    Or.inr (hliteral 's' hs), hliteral 'h' hh, hliteral 'm' hm, hliteral 's' hs⟩

/-- Characters that the placeholders do without. -/
def Marked (c : Char) : Prop := (decimal? c).isSome ∨ c ∈ ['-', ':', '/', '.']

instance : DecidablePred Marked := fun c =>
  inferInstanceAs (Decidable ((decimal? c).isSome ∨ c ∈ ['-', ':', '/', '.']))

theorem uuidRule_needs : (matcher alnum uuidRule).Needs (· = '-') :=
  Or.inr (Or.inr (Or.inl (literal_needs '-')))

theorem tsRule_needs : (matcher alnum tsRule).Needs (· = ':') :=
  Or.inr (Or.inr (Or.inr (Or.inr (Or.inr (Or.inr (Or.inr (Or.inr (Or.inl (literal_needs ':')))))))))

theorem urlRule_needs : (matcher alnum urlRule).Needs (· = ':') :=
  Or.inr (Or.inr (Or.inr (Or.inr (Or.inr (Or.inr (Or.inl (literal_needs ':')))))))

theorem pathRule_needs : (matcher alnum pathRule).Needs (· = '/') :=
  Or.inr (Or.inl ⟨by decide, Or.inl (literal_needs '/')⟩)

theorem durRule_needs {p : Char → Prop} (hh : p 'h') (hm : p 'm') (hs : p 's') :
    (matcher alnum durRule).Needs p :=
  Or.inr (Or.inr (Or.inr (Or.inl (timeUnit_needs hh hm hs))))

theorem podRule_needs : (matcher alnum podRule).Needs (· = '-') :=
  Or.inr (Or.inr (Or.inr (Or.inl (literal_needs '-'))))

theorem nodeRule_needs : (matcher alnum nodeRule).Needs (· = '.') :=
  Or.inr (Or.inr (Or.inr (Or.inr (Or.inl (literal_needs '.')))))

theorem ipRule_needs : (matcher alnum ipRule).Needs (· = '.') :=
  Or.inr (Or.inr (Or.inl ⟨by decide, Or.inl (literal_needs '.')⟩))

/-- Every rule needs a character that the placeholders do without. -/
theorem rules_need : ∀ rule ∈ rules, (matcher alnum rule.1).Needs Marked := by
  have hmarked : ∀ {r : Regex} {d : Char}, d ∈ ['-', ':', '/', '.'] → r.Needs (· = d) →
      r.Needs Marked := fun hd h => h.mono fun c hc => Or.inr (hc ▸ hd)
  have hdigit : (matcher alnum digit).Needs Marked := digit_needs.mono fun c hc => Or.inl hc
  intro rule hrule
  simp only [rules, List.mem_cons, List.not_mem_nil, or_false] at hrule
  rcases hrule with rfl | rfl | rfl | rfl | rfl | rfl | rfl | rfl | rfl | rfl
  · exact hmarked (by decide) uuidRule_needs
  · exact hmarked (by decide) tsRule_needs
  · exact hmarked (by decide) urlRule_needs
  · exact hmarked (by decide) pathRule_needs
  · exact Or.inr (Or.inl ⟨by decide, hdigit⟩)
  · exact hmarked (by decide) podRule_needs
  · exact hmarked (by decide) nodeRule_needs
  · exact hmarked (by decide) ipRule_needs
  · -- the digit that the look ahead asks for
    refine Or.inr (Or.inl (Or.inr ?_))
    show (matcher alnum (.items false [.range '0' '9'])).Needs Marked
    rw [matcher_decimal]
    exact fun c hc => Or.inl (decimal?_isSome_of_isDigit hc)
  · exact Or.inr (Or.inl ⟨by decide, hdigit⟩)

/-- All rules up to `<node>` need more than digits and dots. -/
theorem rules_need_more :
    ∀ rule ∈ rules.take 7, (matcher alnum rule.1).Needs fun c => ¬ isDigit c ∧ c ≠ '.' := by
  have hother : ∀ {r : Regex} {d : Char}, ¬ isDigit d ∧ d ≠ '.' → r.Needs (· = d) →
      r.Needs fun c => ¬ isDigit c ∧ c ≠ '.' := fun hd h => h.mono fun c hc => hc ▸ hd
  intro rule hrule
  simp only [rules, List.take_succ_cons, List.take_zero, List.mem_cons, List.not_mem_nil,
    or_false] at hrule
  rcases hrule with rfl | rfl | rfl | rfl | rfl | rfl | rfl
  · exact hother (by decide) uuidRule_needs
  · exact hother (by decide) tsRule_needs
  · exact hother (by decide) urlRule_needs
  · exact hother (by decide) pathRule_needs
  · exact durRule_needs (by decide) (by decide) (by decide)
  · exact hother (by decide) podRule_needs
  · -- the letters after the last dot
    refine Or.inr (Or.inr (Or.inr (Or.inr (Or.inr (Or.inl ⟨by decide, ?_⟩)))))
    show (matcher alnum (.items false [.range 'a' 'z'])).Needs _
    rw [oneOf_singleton]
    intro c hc
    have hrange : 'a' ≤ c ∧ c ≤ 'z' := of_decide_eq_true hc
    constructor
    · intro hdigit
      have hdigit : '0' ≤ c ∧ c ≤ '9' := of_decide_eq_true hdigit
      exact absurd (le_trans hrange.1 hdigit.2) (by decide)
    · rintro rfl
      exact absurd hrange (by decide)

theorem substitute_of_needs {rule : Pattern × String} {p : Char → Prop}
    (h : (matcher alnum rule.1).Needs p) {x : List Char} (hx : ∀ c ∈ x, ¬ p c) :
    substitute alnum rule x = x :=
  sub_of_lacks h _ hx

theorem foldl_of_unmatched {l : List (Pattern × String)} {x : List Char}
    (h : ∀ rule ∈ l, substitute alnum rule x = x) :
    l.foldl (fun text rule => substitute alnum rule text) x = x := by
  induction l with
  | nil => rfl
  | cons rule l ih =>
      obtain ⟨hrule, hl⟩ := List.forall_mem_cons.mp h
      rw [List.foldl_cons, hrule, ih hl]

theorem placeholders_unmarked : ∀ rule ∈ rules, ∀ c ∈ rule.2.toList, ¬ Marked c := by
  decide +kernel

/-- What the first rule that matches a token as a whole makes of it stays. -/
theorem replaced_of_first (l₁ l₂ : List (Pattern × String)) (rule : Pattern × String)
    (hrules : rules = l₁ ++ rule :: l₂) {x : List Char}
    (hbefore : ∀ earlier ∈ l₁, substitute alnum earlier x = x)
    (hrule : substitute alnum rule x = rule.2.toList) : replaced alnum x = rule.2.toList := by
  have hmem : rule ∈ rules := by
    rw [hrules]
    exact List.mem_append_right l₁ List.mem_cons_self
  rw [replaced, hrules, List.foldl_append, foldl_of_unmatched hbefore, List.foldl_cons, hrule]
  apply foldl_of_unmatched
  intro later hlater
  have hneeds : (matcher alnum later.1).Needs Marked :=
    rules_need later (by rw [hrules]; exact List.mem_append_right l₁ (List.mem_cons_of_mem _ hlater))
  exact substitute_of_needs hneeds (placeholders_unmarked rule hmem)

/-! ## Words -/

/-- A rule without the boundary it starts at. -/
def rest : Pattern → Pattern
  | .seq _ rule => rule
  | rule => rule

/-- A rule between two boundaries that takes something. -/
structure WordRule (alnum : Char → Bool) (rule : Pattern) : Prop where
  opened : rule = .seq .boundary (rest rule)
  closed : (matcher alnum (rest rule)).Closed (isWord alnum)
  takes : 0 < (matcher alnum (rest rule)).minLength

theorem durRule_word : WordRule alnum durRule := ⟨rfl, rfl, Nat.add_pos_left Nat.one_pos _⟩

theorem hashRule_word : WordRule alnum hashRule := ⟨rfl, rfl, Nat.le_of_ble_eq_true rfl⟩

theorem numberRule_word : WordRule alnum numberRule := ⟨rfl, rfl, Nat.le_of_ble_eq_true rfl⟩

/-- Such a rule replaces a word as a whole or not at all. -/
theorem substitute_word {rule : Pattern} (hrule : WordRule alnum rule) {x : List Char}
    (hx : ∀ c ∈ x, isWord alnum c) (mark : String) :
    substitute alnum (rule, mark) x =
      if ((matcher alnum (rest rule)).run (none, x)).isEmpty then x else mark.toList := by
  have hsplit : matcher alnum rule = .seq (.boundary (isWord alnum)) (matcher alnum (rest rule)) := by
    rw [hrule.opened]
    rfl
  rw [substitute, hsplit, sub_word hrule.closed hrule.takes hx]

theorem if_isEmpty_of_first {r : Regex} {q q' : Position} (h : First r q q') {α : Type} (a b : α) :
    (if (r.run q).isEmpty then a else b) = b := by
  obtain ⟨l, hl⟩ := h
  rw [hl]
  rfl

/-- A word that starts here starts at a boundary. -/
theorem first_start {p : Option Char} (hp : p.any (isWord alnum) = false) {c : Char}
    (hc : isWord alnum c) (s : List Char) :
    First (.boundary (isWord alnum)) (p, c :: s) (p, c :: s) := by
  apply First.boundary
  rw [hp, List.head?_cons, Option.any_some, hc]
  simp

/-- A word that does not go on ends at a boundary. -/
theorem boundary_run_end {w : List Char} (hne : w ≠ []) (hw : ∀ c ∈ w, isWord alnum c)
    {z : List Char} (hz : z.head?.any (isWord alnum) = false) (p : Option Char) :
    (Regex.boundary (isWord alnum)).run (w.getLast?.or p, z) = [(w.getLast?.or p, z)] := by
  rw [run_boundary, if_pos]
  rw [List.getLast?_eq_getLast_of_ne_nil hne, Option.some_or, Option.any_some,
    hw _ (List.getLast_mem hne), hz]
  rfl

theorem first_end {w : List Char} (hne : w ≠ []) (hw : ∀ c ∈ w, isWord alnum c) {z : List Char}
    (hz : z.head?.any (isWord alnum) = false) (p : Option Char) :
    First (.boundary (isWord alnum)) (w.getLast?.or p, z) (w.getLast?.or p, z) :=
  ⟨[], boundary_run_end hne hw hz p⟩

/-- Inside a word there is no boundary. -/
theorem boundary_run_inside {w : List Char} (hne : w ≠ []) (hw : ∀ c ∈ w, isWord alnum c) {c : Char}
    (hc : isWord alnum c) (z : List Char) (p : Option Char) :
    (Regex.boundary (isWord alnum)).run (w.getLast?.or p, c :: z) = [] := by
  rw [run_boundary, if_neg]
  rw [List.getLast?_eq_getLast_of_ne_nil hne, Option.some_or, Option.any_some,
    hw _ (List.getLast_mem hne), List.head?_cons, Option.any_some, hc]
  simp

/-! ## Numbers -/

/-- Decimal numbers of four or more digits. -/
def IsNumber (x : List Char) : Prop := 4 ≤ x.length ∧ ∀ c ∈ x, isDigit c

theorem isWord_of_digits {x : List Char} (hx : ∀ c ∈ x, isDigit c) : ∀ c ∈ x, isWord alnum c :=
  fun c hc => isWord_of_isLowerAlnum (isLowerAlnum_of_isDigit (hx c hc))

theorem stops_nil (accepts : Char → Bool) : Stops accepts [] := by
  intro c hc
  exact absurd hc (by simp)

theorem digitHas_of_isDigit {c : Char} (h : isDigit c) : ClassItem.digit.has (reKinds alnum) c :=
  decimal?_isSome_of_isDigit h

theorem substitute_number {x : List Char} (h : IsNumber x) :
    substitute alnum (numberRule, "<n>") x = "<n>".toList := by
  have hword : ∀ c ∈ x, isWord alnum c := isWord_of_digits h.2
  have hne : x ≠ [] := by
    rintro rfl
    exact absurd h.1 (by decide)
  have hdigits : First (matcher alnum (.rep digit 4 none)) (none, x ++ [])
      (x.getLast?.or none, []) := by
    show First (.rep (matcher alnum digit) 4 none) _ _
    rw [digit, oneOf_singleton]
    exact First.rep_set ⟨h.1, by simp⟩ (stops_nil _)
      (fun c hc => digitHas_of_isDigit (h.2 c hc)) none
  rw [List.append_nil] at hdigits
  have hfirst : First (matcher alnum (rest numberRule)) (none, x) _ :=
    hdigits.seq (first_end hne hword rfl none)
  rw [substitute_word numberRule_word hword, if_isEmpty_of_first hfirst]

/-- A number of seven digits is taken for a hash. -/
theorem hash_of_number {x : List Char} (hlen : 7 ≤ x.length) (hx : ∀ c ∈ x, isDigit c) :
    substitute alnum (hashRule, "<hash>") x = "<hash>".toList := by
  have hword : ∀ c ∈ x, isWord alnum c := isWord_of_digits hx
  obtain ⟨c, s, rfl⟩ : ∃ c s, x = c :: s := by
    cases x with
    | nil => exact absurd hlen (by decide)
    | cons c s => exact ⟨c, s, rfl⟩
  -- the look ahead finds its digit at the start
  have hahead : First (matcher alnum (.ahead (.seq (.rep hex 0 none)
      (.items false [.range '0' '9'])))) (none, c :: s) (none, c :: s) := by
    apply First.ahead
    apply List.ne_nil_of_mem (a := (some c, s))
    apply List.mem_flatMap.mpr
    refine ⟨(none, c :: s), mem_run_rep_zero _ _ _, ?_⟩
    show (some c, s) ∈ (matcher alnum (.items false [.range '0' '9'])).run (none, c :: s)
    rw [matcher_decimal, run_set_cons, if_pos (hx c List.mem_cons_self)]
    exact List.mem_singleton_self _
  have hhex : First (matcher alnum (.rep hex 7 none)) (none, (c :: s) ++ [])
      ((c :: s).getLast?.or none, []) := by
    show First (.rep (matcher alnum hex) 7 none) _ _
    rw [matcher_hex]
    exact First.rep_set ⟨hlen, by simp⟩ (stops_nil _) (fun c hc => isHex_of_isDigit (hx c hc)) none
  rw [List.append_nil] at hhex
  have hfirst : First (matcher alnum (rest hashRule)) (none, c :: s) _ :=
    hahead.seq (hhex.seq (first_end (List.cons_ne_nil c s) hword rfl none))
  rw [substitute_word hashRule_word hword, if_isEmpty_of_first hfirst]

/-- A shorter word is not. -/
theorem hash_of_short {x : List Char} (hlen : x.length < 7) (hx : ∀ c ∈ x, isWord alnum c) :
    substitute alnum (hashRule, "<hash>") x = x := by
  have hshort : (matcher alnum (rest hashRule)).run (none, x) = [] := run_of_short hlen
  rw [substitute_word hashRule_word hx, hshort, List.isEmpty_nil, if_pos rfl]

theorem rules_before_hash {x : List Char} (hx : ∀ c ∈ x, isDigit c) :
    ∀ rule ∈ rules.take 8, substitute alnum rule x = x := by
  intro rule hrule
  rw [List.take_add_one, List.mem_append] at hrule
  rcases hrule with hrule | hrule
  · exact substitute_of_needs (rules_need_more rule hrule) fun c hc h => h.1 (hx c hc)
  · obtain rfl : rule = (ipRule, "<ip>") := by simpa [rules] using hrule
    refine substitute_of_needs ipRule_needs fun c hc h => ?_
    exact absurd (hx c hc) (by rw [h]; decide)

/-- A number of seven digits or more becomes a hash, a shorter one a number. -/
theorem replaced_number {x : List Char} (h : IsNumber x) :
    replaced alnum x = if x.length < 7 then "<n>".toList else "<hash>".toList := by
  split_ifs with hlen
  · apply replaced_of_first (rules.take 9) [] (numberRule, "<n>") rfl _
      (substitute_number h)
    intro rule hrule
    rw [List.take_add_one, List.mem_append] at hrule
    rcases hrule with hrule | hrule
    · exact rules_before_hash h.2 rule hrule
    · obtain rfl : rule = (hashRule, "<hash>") := by simpa [rules] using hrule
      exact hash_of_short hlen (isWord_of_digits h.2)
  · apply replaced_of_first (rules.take 8) (rules.drop 9) (hashRule, "<hash>")
      rfl (rules_before_hash h.2)
    exact hash_of_number (Nat.le_of_not_lt hlen) h.2

/-! ## Pieces of a token -/

/-- `n` characters of a kind. -/
def Run (accepts : Char → Bool) (n : Nat) (w : List Char) : Prop :=
  w.length = n ∧ ∀ c ∈ w, accepts c

theorem first_literal (c : Char) (p : Option Char) (s : List Char) :
    First (matcher alnum (literal c)) (p, c :: s) (some c, s) := by
  rw [literal, oneOf_singleton]
  exact First.set (by simp [ClassItem.has]) p s

theorem first_hex {n : Nat} {w : List Char} (h : Run isHex n w) (z : List Char)
    (p : Option Char) :
    First (matcher alnum (times n hex)) (p, w ++ z) (w.getLast?.or p, z) := by
  show First (exactly n (matcher alnum hex)) _ _
  rw [matcher_hex]
  exact First.exactly_set h.1 h.2 z p

theorem first_digits {n : Nat} {w : List Char} (h : Run isDigit n w) (z : List Char)
    (p : Option Char) :
    First (matcher alnum (times n digit)) (p, w ++ z) (w.getLast?.or p, z) := by
  show First (exactly n (matcher alnum digit)) _ _
  rw [digit, oneOf_singleton]
  exact First.exactly_set h.1 (fun c hc => digitHas_of_isDigit (h.2 c hc)) z p

/-! ## UUIDs -/

/-- The text of a UUID before `z`. -/
def uuidText (a b c d e z : List Char) : List Char :=
  a ++ '-' :: (b ++ '-' :: (c ++ '-' :: (d ++ '-' :: (e ++ z))))

/-- Groups of lowercase hexadecimal digits, as long as those of a UUID. -/
structure UuidGroups (a b c d e : List Char) : Prop where
  first : Run isHex 8 a
  second : Run isHex 4 b
  third : Run isHex 4 c
  fourth : Run isHex 4 d
  fifth : Run isHex 12 e

/-- Lowercase UUIDs. -/
def IsUuid (x : List Char) : Prop := ∃ a b c d e, UuidGroups a b c d e ∧ x = uuidText a b c d e []

theorem mem_hex_run {n : Nat} {q m : Position} (h : m ∈ (matcher alnum (times n hex)).run q) :
    ∃ w, Run isHex n w ∧ q.2 = w ++ m.2 ∧ m.1 = w.getLast?.or q.1 := by
  have h : m ∈ (exactly n (matcher alnum hex)).run q := h
  rw [matcher_hex] at h
  obtain ⟨w, hlen, hw, hq, hlast⟩ := mem_run_exactly_set h
  exact ⟨w, ⟨hlen, hw⟩, hq, hlast⟩

theorem mem_literal_run {c : Char} {q m : Position} (h : m ∈ (matcher alnum (literal c)).run q) :
    q.2 = c :: m.2 := by
  rw [literal, oneOf_singleton] at h
  obtain ⟨p, s⟩ := q
  cases s with
  | nil => exact absurd h (by simp)
  | cons d s =>
      rw [run_set_cons] at h
      split_ifs at h with hd
      · rw [List.mem_singleton.mp h, show d = c by simpa [ClassItem.has] using hd]
      · exact absurd h (by simp)

/-- A match of the rule is a UUID, and no word goes on behind it. -/
theorem rest_uuidRule_text {q q' : Position} (h : q' ∈ (matcher alnum (rest uuidRule)).run q) :
    ∃ a b c d e, UuidGroups a b c d e ∧ q.2 = uuidText a b c d e q'.2 ∧
      q'.2.head?.any (isWord alnum) = false := by
  have hclosed : (matcher alnum (rest uuidRule)).Closed (isWord alnum) := rfl
  have hbound := boundary_of_mem_run hclosed h
  obtain ⟨m₁, ha, h⟩ := List.mem_flatMap.mp h
  obtain ⟨m₂, hdash₁, h⟩ := List.mem_flatMap.mp h
  obtain ⟨m₃, hb, h⟩ := List.mem_flatMap.mp h
  obtain ⟨m₄, hdash₂, h⟩ := List.mem_flatMap.mp h
  obtain ⟨m₅, hc, h⟩ := List.mem_flatMap.mp h
  obtain ⟨m₆, hdash₃, h⟩ := List.mem_flatMap.mp h
  obtain ⟨m₇, hd, h⟩ := List.mem_flatMap.mp h
  obtain ⟨m₈, hdash₄, h⟩ := List.mem_flatMap.mp h
  obtain ⟨m₉, he, h⟩ := List.mem_flatMap.mp h
  obtain ⟨a, ha, hqa, -⟩ := mem_hex_run ha
  obtain ⟨b, hb, hqb, -⟩ := mem_hex_run hb
  obtain ⟨c, hc, hqc, -⟩ := mem_hex_run hc
  obtain ⟨d, hd, hqd, -⟩ := mem_hex_run hd
  obtain ⟨e, he, hqe, hlast⟩ := mem_hex_run he
  have hend : q' = m₉ := mem_run_boundary h
  refine ⟨a, b, c, d, e, ⟨ha, hb, hc, hd, he⟩, ?_, ?_⟩
  · rw [uuidText, hend, ← hqe, ← mem_literal_run hdash₄, ← hqd, ← mem_literal_run hdash₃, ← hqc,
      ← mem_literal_run hdash₂, ← hqb, ← mem_literal_run hdash₁, ← hqa]
  -- the boundary asks for the end of the last group
  · have hne : e ≠ [] := by
      rintro rfl
      exact absurd he.1 (by decide)
    have hword : isWord alnum (e.getLast hne) :=
      isWord_of_isLowerAlnum (isLowerAlnum_of_isHex (he.2 _ (List.getLast_mem hne)))
    rw [hend, hlast, List.getLast?_eq_getLast_of_ne_nil hne, Option.some_or, Option.any_some,
      hword] at hbound
    rw [hend]
    simpa using hbound.symm

theorem uuidRule_text {q q' : Position} (h : q' ∈ (matcher alnum uuidRule).run q) :
    ∃ a b c d e, UuidGroups a b c d e ∧ q.2 = uuidText a b c d e q'.2 := by
  obtain ⟨m, hm, h⟩ := List.mem_flatMap.mp h
  obtain ⟨a, b, c, d, e, hgroups, htext, -⟩ := rest_uuidRule_text h
  have hstart : m = q := mem_run_boundary hm
  exact ⟨a, b, c, d, e, hgroups, hstart ▸ htext⟩

theorem first_uuid {a b c d e z : List Char} (h : UuidGroups a b c d e)
    (hz : z.head?.any (isWord alnum) = false) {p : Option Char}
    (hp : p.any (isWord alnum) = false) :
    ∃ p', First (matcher alnum uuidRule) (p, uuidText a b c d e z) (p', z) := by
  have hne : e ≠ [] := by
    rintro rfl
    exact absurd h.fifth.1 (by decide)
  have hword : ∀ x ∈ e, isWord alnum x := fun x hx =>
    isWord_of_isLowerAlnum (isLowerAlnum_of_isHex (h.fifth.2 x hx))
  have hstart : ∀ s, First (.boundary (isWord alnum)) (p, a ++ s) (p, a ++ s) := by
    intro s
    obtain ⟨x, a, rfl⟩ : ∃ x w, a = x :: w := by
      cases a with
      | nil => exact absurd h.first.1 (by decide)
      | cons x w => exact ⟨x, w, rfl⟩
    exact first_start hp
      (isWord_of_isLowerAlnum (isLowerAlnum_of_isHex (h.first.2 x List.mem_cons_self))) (a ++ s)
  exact ⟨_, First.seq (hstart _) <| (first_hex h.first _ _).seq <| (first_literal '-' _ _).seq <|
    (first_hex h.second _ _).seq <| (first_literal '-' _ _).seq <|
    (first_hex h.third _ _).seq <| (first_literal '-' _ _).seq <|
    (first_hex h.fourth _ _).seq <| (first_literal '-' _ _).seq <|
    (first_hex h.fifth _ _).seq (first_end hne hword hz _)⟩

theorem substitute_uuid {x : List Char} (h : IsUuid x) :
    substitute alnum (uuidRule, "<uuid>") x = "<uuid>".toList := by
  obtain ⟨a, b, c, d, e, hgroups, rfl⟩ := h
  obtain ⟨p', hfirst⟩ : ∃ p', First (matcher alnum uuidRule) (none, uuidText a b c d e []) (p', []) :=
    first_uuid hgroups rfl rfl
  exact hfirst.sub (by simp [uuidText]) _

theorem replaced_uuid {x : List Char} (h : IsUuid x) : replaced alnum x = "<uuid>".toList :=
  replaced_of_first [] (rules.drop 1) (uuidRule, "<uuid>") rfl
    (by simp) (substitute_uuid h)

/-! ## Addresses -/

/-- One to three digits. -/
def IsOctet (w : List Char) : Prop := (1 ≤ w.length ∧ w.length ≤ 3) ∧ ∀ c ∈ w, isDigit c

/-- Dotted quads of numbers of at most three digits, as IPv4 addresses are. -/
def IsAddress (x : List Char) : Prop :=
  ∃ a b c d, IsOctet a ∧ IsOctet b ∧ IsOctet c ∧ IsOctet d ∧
    x = a ++ '.' :: (b ++ '.' :: (c ++ '.' :: d))

theorem IsOctet.ne_nil {w : List Char} (h : IsOctet w) : w ≠ [] := by
  rintro rfl
  exact absurd h.1.1 (by decide)

theorem stops_dot (z : List Char) : Stops (ClassItem.digit.has (reKinds alnum)) ('.' :: z) := by
  intro c hc
  obtain rfl : '.' = c := by simpa using hc
  show (decimal? '.').isSome = false
  decide

theorem first_octet {w z : List Char} (h : IsOctet w)
    (hz : Stops (ClassItem.digit.has (reKinds alnum)) z) (p : Option Char) :
    First (matcher alnum (.rep digit 1 (some 3))) (p, w ++ z) (w.getLast?.or p, z) := by
  show First (.rep (matcher alnum digit) 1 (some 3)) _ _
  rw [digit, oneOf_singleton]
  refine First.rep_set ⟨h.1.1, ?_⟩ hz (fun c hc => digitHas_of_isDigit (h.2 c hc)) p
  intro m hm
  rw [← Option.some.inj hm]
  exact h.1.2

theorem substitute_address {x : List Char} (h : IsAddress x) :
    substitute alnum (ipRule, "<ip>") x = "<ip>".toList := by
  obtain ⟨a, b, c, d, ha, hb, hc, hd, rfl⟩ := h
  have hstart : ∀ s, First (.boundary (isWord alnum)) (none, a ++ s) (none, a ++ s) := by
    intro s
    obtain ⟨x, a, rfl⟩ := List.exists_cons_of_ne_nil ha.ne_nil
    exact first_start rfl (isWord_of_digits ha.2 x List.mem_cons_self) (a ++ s)
  have hpart : ∀ {w z : List Char}, IsOctet w →
      Stops (ClassItem.digit.has (reKinds alnum)) z → ∀ p,
      First (matcher alnum (.seq (literal '.') (.rep digit 1 (some 3)))) (p, '.' :: (w ++ z))
        (w.getLast?.or (some '.'), z) :=
    fun hw hz p => (first_literal '.' p _).seq (first_octet hw hz _)
  have hd' := hpart hd (stops_nil _) (c.getLast?.or (some '.'))
  rw [List.append_nil] at hd'
  have hparts : First (matcher alnum (times 3 (.seq (literal '.') (.rep digit 1 (some 3)))))
      (a.getLast?.or none, '.' :: (b ++ '.' :: (c ++ '.' :: d))) (d.getLast?.or (some '.'), []) :=
    (hpart hb (stops_dot _) _).exactly_succ <| (hpart hc (stops_dot _) _).exactly_succ <|
      hd'.exactly_succ (First.exactly_zero _ _)
  have hfirst : First (matcher alnum ipRule)
      (none, a ++ '.' :: (b ++ '.' :: (c ++ '.' :: d))) _ :=
    (hstart _).seq <| (first_octet ha (stops_dot _) none).seq <|
      hparts.seq (first_end hd.ne_nil (isWord_of_digits hd.2) rfl _)
  exact hfirst.sub (by simp) _

theorem rules_before_ip {x : List Char} (hx : ∀ c ∈ x, isDigit c ∨ c = '.') :
    ∀ rule ∈ rules.take 7, substitute alnum rule x = x := fun rule hrule =>
  substitute_of_needs (rules_need_more rule hrule) fun c hc h => (hx c hc).elim h.1 h.2

theorem IsAddress.chars {x : List Char} (h : IsAddress x) : ∀ c ∈ x, isDigit c ∨ c = '.' := by
  obtain ⟨a, b, c, d, ha, hb, hc, hd, rfl⟩ := h
  intro e he
  simp only [List.mem_append, List.mem_cons] at he
  rcases he with he | he | he | he | he | he | he
  · exact Or.inl (ha.2 e he)
  · exact Or.inr he
  · exact Or.inl (hb.2 e he)
  · exact Or.inr he
  · exact Or.inl (hc.2 e he)
  · exact Or.inr he
  · exact Or.inl (hd.2 e he)

theorem replaced_address {x : List Char} (h : IsAddress x) : replaced alnum x = "<ip>".toList :=
  replaced_of_first (rules.take 7) (rules.drop 8) (ipRule, "<ip>") rfl
    (rules_before_ip h.chars) (substitute_address h)

/-! ## Timestamps -/

/-- An RFC 3339 timestamp in UTC; a space may stand for the `T`. -/
structure Timestamp where
  year : List Char
  month : List Char
  day : List Char
  sep : Char
  hour : List Char
  minute : List Char
  second : List Char
  fraction : List Char
  zone : List Char
  year_digits : Run isDigit 4 year
  month_digits : Run isDigit 2 month
  day_digits : Run isDigit 2 day
  sep_mem : sep ∈ ['T', 't', ' ']
  hour_digits : Run isDigit 2 hour
  minute_digits : Run isDigit 2 minute
  second_digits : Run isDigit 2 second
  fraction_digits : fraction = [] ∨ ∃ w, w ≠ [] ∧ (∀ c ∈ w, isDigit c) ∧ fraction = '.' :: w
  zone_mem : zone ∈ [['Z'], ['z'], ['+', '0', '0', ':', '0', '0'], ['-', '0', '0', ':', '0', '0']]

namespace Timestamp

def clockText (t : Timestamp) : List Char :=
  t.hour ++ ':' :: (t.minute ++ ':' :: (t.second ++ (t.fraction ++ t.zone)))

def text (t : Timestamp) : List Char :=
  t.year ++ '-' :: (t.month ++ '-' :: (t.day ++ t.sep :: t.clockText))

/-- The timestamp in small letters. -/
def lower (t : Timestamp) : Timestamp :=
  { t with
    sep := t.sep.toLower
    zone := t.zone.map Char.toLower
    sep_mem := by
      have hsep := t.sep_mem
      simp only [List.mem_cons, List.not_mem_nil, or_false] at hsep
      rcases hsep with h | h | h <;> rw [h] <;> decide
    zone_mem := by
      have hzone := t.zone_mem
      simp only [List.mem_cons, List.not_mem_nil, or_false] at hzone
      rcases hzone with h | h | h | h <;> rw [h] <;> decide }

/-- The letters of the timestamp are small. -/
structure Small (t : Timestamp) : Prop where
  sep : t.sep ∈ ['t', ' ']
  zone : t.zone ∈ [['z'], ['+', '0', '0', ':', '0', '0'], ['-', '0', '0', ':', '0', '0']]

theorem lower_small (t : Timestamp) : t.lower.Small where
  sep := by
    show t.sep.toLower ∈ _
    have hsep := t.sep_mem
    simp only [List.mem_cons, List.not_mem_nil, or_false] at hsep
    rcases hsep with h | h | h <;> rw [h] <;> decide
  zone := by
    show t.zone.map Char.toLower ∈ _
    have hzone := t.zone_mem
    simp only [List.mem_cons, List.not_mem_nil, or_false] at hzone
    rcases hzone with h | h | h | h <;> rw [h] <;> decide

theorem first_fraction (t : Timestamp) (p : Option Char) :
    First (matcher alnum (opt (.seq (.items false [.single '.', .single ',']) (plus digit))))
      (p, t.fraction ++ t.zone) (t.fraction.getLast?.or p, t.zone) := by
  have hzone := t.zone_mem
  simp only [List.mem_cons, List.not_mem_nil, or_false] at hzone
  rcases t.fraction_digits with h | ⟨w, hne, hw, h⟩
  · rw [h, List.nil_append, List.getLast?_nil, Option.none_or]
    have hnil : (matcher alnum (.seq (.items false [.single '.', .single ',']) (plus digit))).run
        (p, t.zone) = [] := by
      rcases hzone with h | h | h | h <;> rw [h] <;> rfl
    exact ⟨[], run_opt_of_nil hnil⟩
  -- the zone starts with no digit
  · have hstops : Stops (ClassItem.digit.has (reKinds alnum)) t.zone := by
      intro c hc
      rcases hzone with h | h | h | h <;> rw [h] at hc <;> cases hc <;> exact rfl
    have hdigits : First (matcher alnum (plus digit)) (some '.', w ++ t.zone)
        (w.getLast?.or (some '.'), t.zone) := by
      show First (Regex.plus (matcher alnum digit)) _ _
      rw [digit, oneOf_singleton]
      refine First.rep_set ⟨?_, by simp⟩ hstops (fun c hc => digitHas_of_isDigit (hw c hc)) _
      exact List.length_pos_of_ne_nil hne
    have hdot : First (matcher alnum (.items false [.single '.', .single ',']))
        (p, '.' :: (w ++ t.zone)) (some '.', w ++ t.zone) := ⟨[], rfl⟩
    rw [h, List.cons_append, getLast?_or_cons]
    exact First.opt_some (hdot.seq hdigits) (by simp only [List.length_cons, List.length_append]; omega)

/-- `(?:z|[+-]\d{2}:?\d{2})?`. -/
def zonePattern : Pattern :=
  opt (.alt (literal 'z') (.seq (.items false [.single '+', .single '-']) <|
    .seq (times 2 digit) <| .seq (opt (literal ':')) (times 2 digit)))

theorem first_offset {sign : Char} (h : sign = '+' ∨ sign = '-') (p : Option Char) :
    First (matcher alnum zonePattern) (p, [sign, '0', '0', ':', '0', '0']) (some '0', []) := by
  have hzeros : Run isDigit 2 ['0', '0'] := ⟨rfl, by decide⟩
  have hletter : (matcher alnum (literal 'z')).run (p, [sign, '0', '0', ':', '0', '0']) = [] := by
    rcases h with rfl | rfl <;> rfl
  have hsign : First (matcher alnum (.items false [.single '+', .single '-']))
      (p, [sign, '0', '0', ':', '0', '0']) (some sign, ['0', '0', ':', '0', '0']) := by
    rcases h with rfl | rfl <;> exact ⟨[], rfl⟩
  have hcolon : First (matcher alnum (opt (literal ':'))) (some '0', [':', '0', '0'])
      (some ':', ['0', '0']) := (first_literal ':' _ _).opt_some (by decide)
  exact (First.right hletter <| hsign.seq <| (first_digits hzeros [':', '0', '0'] _).seq <|
    hcolon.seq (first_digits hzeros [] _)).opt_some (by simp)

theorem first_zone {t : Timestamp} (h : t.Small) (p : Option Char) :
    ∃ c, isWord alnum c ∧ First (matcher alnum zonePattern) (p, t.zone) (some c, []) := by
  have hzone := h.zone
  simp only [List.mem_cons, List.not_mem_nil, or_false] at hzone
  rcases hzone with h | h | h <;> rw [h]
  · exact ⟨'z', rfl, First.opt_some (First.left (first_literal 'z' p [])) (by simp)⟩
  · exact ⟨'0', rfl, first_offset (Or.inl rfl) p⟩
  · exact ⟨'0', rfl, first_offset (Or.inr rfl) p⟩

theorem first_clock {t : Timestamp} (h : t.Small) (p : Option Char) :
    ∃ p', First (matcher alnum clock) (p, t.clockText) (p', []) := by
  obtain ⟨c, hc, hzone⟩ : ∃ c, isWord alnum c ∧ First (matcher alnum zonePattern)
      (t.fraction.getLast?.or (t.second.getLast?.or (some ':')), t.zone) (some c, []) :=
    first_zone h _
  have hend : First (.boundary (isWord alnum)) (some c, []) (some c, []) :=
    First.boundary (by simp [hc])
  exact ⟨_, (first_digits t.hour_digits _ _).seq <| (first_literal ':' _ _).seq <|
    (first_digits t.minute_digits _ _).seq <| (first_literal ':' _ _).seq <|
    (first_digits t.second_digits _ _).seq <| (t.first_fraction _).seq <| hzone.seq hend⟩

theorem substitute_timestamp {t : Timestamp} (h : t.Small) :
    substitute alnum (tsRule, "<ts>") t.text = "<ts>".toList := by
  obtain ⟨p', hclock⟩ : ∃ p', First (matcher alnum clock) (some t.sep, t.clockText) (p', []) :=
    first_clock h _
  have hsep : First (matcher alnum (.items false [.single ' ', .single 't']))
      (t.day.getLast?.or (some '-'), t.sep :: t.clockText) (some t.sep, t.clockText) := by
    have hsep := h.sep
    simp only [List.mem_cons, List.not_mem_nil, or_false] at hsep
    rcases hsep with h | h <;> rw [h] <;> exact ⟨[], rfl⟩
  have hstart : First (.boundary (isWord alnum)) (none, t.text) (none, t.text) := by
    rw [text]
    cases hyear : t.year with
    | nil => exact absurd t.year_digits.1 (by rw [hyear]; decide)
    | cons c w =>
        exact first_start rfl (isWord_of_digits t.year_digits.2 c (hyear ▸ List.mem_cons_self)) _
  have hfirst : First (matcher alnum tsRule) (none, t.text) (p', []) :=
    hstart.seq <| (first_digits t.year_digits _ _).seq <| (first_literal '-' _ _).seq <|
      (first_digits t.month_digits _ _).seq <| (first_literal '-' _ _).seq <|
      (first_digits t.day_digits _ _).seq <| hsep.seq hclock
  exact hfirst.sub (by simp [text]) _

theorem count_dash_of_digits {n : Nat} {w : List Char} (h : Run isDigit n w) :
    w.count '-' = 0 :=
  List.count_eq_zero.mpr fun hdash => absurd (h.2 '-' hdash) (by decide)

/-- A timestamp has too few dashes for a UUID. -/
theorem count_dash_le {t : Timestamp} (h : t.Small) : t.text.count '-' ≤ 3 := by
  -- two dashes of the date and at most one of the zone
  have hsep : t.sep ≠ '-' := by
    rintro heq
    exact absurd h.sep (by rw [heq]; decide)
  have hfraction : t.fraction.count '-' = 0 := by
    rcases t.fraction_digits with h | ⟨w, _, hw, h⟩
    · rw [h]
      rfl
    · rw [h, List.count_cons_of_ne (by decide), count_dash_of_digits ⟨rfl, hw⟩]
  have hzone : t.zone.count '-' ≤ 1 := by
    have hzone := h.zone
    simp only [List.mem_cons, List.not_mem_nil, or_false] at hzone
    rcases hzone with h | h | h <;> rw [h] <;> decide
  simp only [text, clockText, List.count_append, List.count_cons, count_dash_of_digits t.year_digits,
    count_dash_of_digits t.month_digits, count_dash_of_digits t.day_digits,
    count_dash_of_digits t.hour_digits, count_dash_of_digits t.minute_digits,
    count_dash_of_digits t.second_digits, hfraction, beq_iff_eq, hsep]
  simp
  omega

theorem four_le_count_dash (a b c d e z : List Char) : 4 ≤ (uuidText a b c d e z).count '-' := by
  simp only [uuidText, List.count_append, List.count_cons_self]
  omega

theorem substitute_uuid_of_timestamp {t : Timestamp} (h : t.Small) :
    substitute alnum (uuidRule, "<uuid>") t.text = t.text := by
  apply sub_of_unmatched
  intro v hv p
  apply List.eq_nil_iff_forall_not_mem.mpr
  intro q hq
  obtain ⟨a, b, c, d, e, _, hv'⟩ := uuidRule_text hq
  have hv' : v = uuidText a b c d e q.2 := hv'
  have hfour := four_le_count_dash a b c d e q.2
  have hle := hv.sublist.count_le '-'
  have hthree := count_dash_le h
  rw [← hv'] at hfour
  omega

theorem replaced_timestamp {t : Timestamp} (h : t.Small) :
    replaced alnum t.text = "<ts>".toList := by
  apply replaced_of_first (rules.take 1) (rules.drop 2) (tsRule, "<ts>") rfl _
    (substitute_timestamp h)
  intro rule hrule
  obtain rfl : rule = (uuidRule, "<uuid>") := by simpa [rules] using hrule
  exact substitute_uuid_of_timestamp h

end Timestamp

end ArgoExporter.FailureTaxonomy
