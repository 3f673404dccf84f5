/-
  ArgoExporter.FailureTaxonomy.Lines

  A message of several lines is normalized line by line: no rule takes a line
  break or looks past one, and collapsing the white space joins what the lines
  became.  Blank lines, and white space around a line, leave no trace in the
  text or in the fingerprint.
-/

import ArgoExporter.FailureTaxonomy.Fingerprint

namespace ArgoExporter.FailureTaxonomy

open ArgoExporter.Lib
open ArgoExporter.Lib.Regex
open ArgoExporter.Py

variable {alnum : Char → Bool}

/-! ## The rules -/

theorem foldl_separator {l : List (Pattern × String)} {c : Char}
    (hl : ∀ rule ∈ l, (matcher alnum rule.1).avoids c) (a z : List Char) :
    l.foldl (fun text rule => substitute alnum rule text) (a ++ c :: z) =
      l.foldl (fun text rule => substitute alnum rule text) a ++
        c :: l.foldl (fun text rule => substitute alnum rule text) z := by
  induction l generalizing a z with
  | nil => rfl
  | cons rule l ih =>
      obtain ⟨hrule, hl⟩ := List.forall_mem_cons.mp hl
      have hone : substitute alnum rule (a ++ c :: z) =
          substitute alnum rule a ++ c :: substitute alnum rule z :=
        sub_separator hrule rule.2.toList a z
      rw [List.foldl_cons, List.foldl_cons, List.foldl_cons, hone]
      exact ih hl _ _

/-- The rules treat the lines of a text apart. -/
theorem replaced_newline (a z : List Char) :
    replaced alnum (a ++ '\n' :: z) = replaced alnum a ++ '\n' :: replaced alnum z := by
  apply foldl_separator
  intro rule hrule
  simp only [rules, List.mem_cons, List.not_mem_nil, or_false] at hrule
  rcases hrule with rfl | rfl | rfl | rfl | rfl | rfl | rfl | rfl | rfl | rfl <;> rfl

/-! ## White space -/

/-- White space only. -/
def Blank (x : List Char) : Prop := ∀ c ∈ x, isSpace c = true

theorem Blank.append {x y : List Char} (hx : Blank x) (hy : Blank y) : Blank (x ++ y) :=
  List.forall_mem_append.mpr ⟨hx, hy⟩

theorem Blank.cons {c : Char} {x : List Char} (hc : isSpace c = true) (hx : Blank x) :
    Blank (c :: x) := List.forall_mem_cons.mpr ⟨hc, hx⟩

/-- A text that is not blank has a first visible character. -/
theorem blank_or_first (x : List Char) :
    Blank x ∨ ∃ s c z, x = s ++ c :: z ∧ Blank s ∧ isSpace c = false := by
  induction x with
  | nil => exact Or.inl fun c hc => absurd hc List.not_mem_nil
  | cons d x ih =>
      cases hd : isSpace d with
      | false => exact Or.inr ⟨[], d, x, rfl, fun c hc => absurd hc List.not_mem_nil, hd⟩
      | true =>
          rcases ih with hx | ⟨s, c, z, rfl, hs, hc⟩
          · exact Or.inl (hx.cons hd)
          · exact Or.inr ⟨d :: s, c, z, rfl, hs.cons hd, hc⟩

/-- A text that is not blank has a last visible character. -/
theorem blank_or_last (x : List Char) :
    Blank x ∨ ∃ a c s, x = a ++ c :: s ∧ Blank s ∧ isSpace c = false := by
  rcases blank_or_first x.reverse with hblank | ⟨s, c, z, hsplit, hs, hc⟩
  · exact Or.inl fun c hc => hblank c (List.mem_reverse.mpr hc)
  · refine Or.inr ⟨z.reverse, c, s.reverse, ?_, fun d hd => hs d (List.mem_reverse.mp hd), hc⟩
    rw [← List.reverse_reverse x, hsplit]
    simp

/-- A run of white space becomes one space. -/
theorem sub_blanks_of_blank {x : List Char} (hne : x ≠ []) (hx : Blank x) :
    (matcher alnum blanks).sub [' '] x = [' '] := by
  have hmatcher : matcher alnum blanks = .rep (.set isSpace) 1 none := by
    show Regex.rep (.set fun c => [ClassItem.space].any fun item => item.has (reKinds alnum) c) 1
      none = _
    congr 2
    funext c
    simp [ClassItem.has, reKinds]
  have hlen : Allows 1 none x.length :=
    ⟨List.length_pos_iff.mpr hne, fun m hm => absurd hm (by simp)⟩
  have hfirst := First.rep_set (z := []) hlen (by simp [Stops]) hx none
  rw [List.append_nil] at hfirst
  rw [hmatcher]
  exact hfirst.sub hne [' ']

theorem dropWhile_sub_blanks {x : List Char} (hx : Blank x) :
    ((matcher alnum blanks).sub [' '] x).dropWhile isSpace = [] := by
  by_cases hne : x = []
  · rw [hne]
    rfl
  · rw [sub_blanks_of_blank hne hx]
    rfl

theorem rdropWhile_sub_blanks {x : List Char} (hx : Blank x) :
    ((matcher alnum blanks).sub [' '] x).rdropWhile isSpace = [] := by
  by_cases hne : x = []
  · rw [hne]
    rfl
  · rw [sub_blanks_of_blank hne hx]
    rfl

theorem collapse_of_blank {x : List Char} (hx : Blank x) : collapse alnum x = [] := by
  rw [collapse, stripBy, dropWhile_sub_blanks hx]
  rfl

/-- Collapsing from the first visible character on. -/
theorem collapse_first {s z : List Char} {c : Char} (hs : Blank s) (hc : isSpace c = false) :
    collapse alnum (s ++ c :: z) =
      c :: ((matcher alnum blanks).sub [' '] z).rdropWhile isSpace := by
  have hvisible : ∀ d ∈ [c], isSpace d = false := fun d hd => List.mem_singleton.mp hd ▸ hc
  have hstrip := stripBy_around (by simp) hvisible ((matcher alnum blanks).sub [' '] s)
    ((matcher alnum blanks).sub [' '] z)
  rw [dropWhile_sub_blanks hs] at hstrip
  rw [collapse, sub_separator (blanks_avoids hc)]
  exact hstrip

/-- Collapsing up to the last visible character. -/
theorem collapse_last {a s : List Char} {c : Char} (hs : Blank s) (hc : isSpace c = false) :
    collapse alnum (a ++ c :: s) =
      ((matcher alnum blanks).sub [' '] a).dropWhile isSpace ++ [c] := by
  have hvisible : ∀ d ∈ [c], isSpace d = false := fun d hd => List.mem_singleton.mp hd ▸ hc
  have hstrip := stripBy_around (by simp) hvisible ((matcher alnum blanks).sub [' '] a)
    ((matcher alnum blanks).sub [' '] s)
  rw [rdropWhile_sub_blanks hs, List.append_nil] at hstrip
  rw [collapse, sub_separator (blanks_avoids hc)]
  exact hstrip

/-- Two texts with a space between them, unless one is empty. -/
def spaced (x y : List Char) : List Char :=
  if x = [] then y else if y = [] then x else x ++ ' ' :: y

/-- A line break joins what the two sides become. -/
theorem collapse_newline (a z : List Char) :
    collapse alnum (a ++ '\n' :: z) = spaced (collapse alnum a) (collapse alnum z) := by
  have hbreak : isSpace '\n' = true := rfl
  rcases blank_or_last a with ha | ⟨a, x, s, rfl, hs, hx⟩
  · rcases blank_or_first z with hz | ⟨t, y, z, rfl, ht, hy⟩
    · rw [collapse_of_blank ha, collapse_of_blank hz, collapse_of_blank (ha.append (hz.cons hbreak))]
      rfl
    · have hfront := ha.append (ht.cons hbreak)
      rw [collapse_of_blank ha, ← List.cons_append, ← List.append_assoc, collapse_first hfront hy,
        collapse_first ht hy]
      rfl
  · have hleft : collapse alnum (a ++ x :: s) ≠ [] := by
      rw [collapse_last hs hx]
      simp
    rcases blank_or_first z with hz | ⟨t, y, z, rfl, ht, hy⟩
    · have hback := hs.append (hz.cons hbreak)
      rw [collapse_of_blank hz, spaced, if_neg hleft, if_pos rfl, List.append_assoc,
        List.cons_append, collapse_last hback hx, collapse_last hs hx]
    -- the white space between the last and the first visible character is one run
    · have hmiddle : Blank (s ++ '\n' :: t) := hs.append (ht.cons hbreak)
      have hvisible : ∀ d ∈ [y], isSpace d = false := fun d hd => List.mem_singleton.mp hd ▸ hy
      have hvisible' : ∀ d ∈ [x], isSpace d = false := fun d hd => List.mem_singleton.mp hd ▸ hx
      have hright : collapse alnum (t ++ y :: z) ≠ [] := by
        rw [collapse_first ht hy]
        simp
      have hsplit : a ++ x :: s ++ '\n' :: (t ++ y :: z) =
          a ++ x :: ((s ++ '\n' :: t) ++ y :: z) := by simp
      have hone : (matcher alnum blanks).sub [' '] (a ++ x :: ((s ++ '\n' :: t) ++ y :: z)) =
          ((matcher alnum blanks).sub [' '] a ++ ([x] ++ [' '])) ++
            ([y] ++ (matcher alnum blanks).sub [' '] z) := by
        rw [sub_separator (blanks_avoids hx), sub_separator (blanks_avoids hy),
          sub_blanks_of_blank (by simp) hmiddle]
        simp
      rw [spaced, if_neg hleft, if_neg hright, collapse_last hs hx, collapse_first ht hy, hsplit,
        collapse, hone, stripBy_around (by simp) hvisible,
        dropWhile_append_of_head (by simp) hvisible']
      simp

/-! ## Texts -/

/-- What the rules and the collapsing make of a lowercased text. -/
def normalized (alnum : Char → Bool) (text : List Char) : List Char :=
  collapse alnum (replaced alnum text)

theorem normalized_newline (a z : List Char) :
    normalized alnum (a ++ '\n' :: z) = spaced (normalized alnum a) (normalized alnum z) := by
  rw [normalized, replaced_newline, collapse_newline, normalized, normalized]

theorem unmarked_of_space {c : Char} (hc : isSpace c = true) : ¬ Marked c := by
  have hall : ∀ n ∈ spaceCodes, ¬ Marked (Char.ofNat n) := by decide +kernel
  have hcode := hall c.toNat (List.contains_iff_mem.mp hc)
  rwa [Char.ofNat_toNat] at hcode

theorem replaced_of_blank {x : List Char} (hx : Blank x) : replaced alnum x = x :=
  foldl_of_unmatched fun rule hrule =>
    substitute_of_needs (rules_need rule hrule) fun c hc => unmarked_of_space (hx c hc)

/-- A replaced text is the same text, or has the replacement in it. -/
theorem sub_same_or_has (r : Regex) (replacement : List Char) {x : List Char} {p : Option Char} :
    r.subFrom replacement 0 p x = x ∨ ∀ c ∈ replacement, c ∈ r.subFrom replacement 0 p x := by
  induction x generalizing p with
  | nil => exact Or.inl rfl
  | cons d x ih =>
      rw [subFrom]
      split
      · rcases ih (p := some d) with h | h
        · exact Or.inl (congrArg _ h)
        · exact Or.inr fun c hc => List.mem_cons_of_mem d (h c hc)
      · exact Or.inr fun c hc => List.mem_append_left _ hc

/-- The placeholders are visible, so a text with something to see keeps something to see. -/
theorem foldl_not_blank {l : List (Pattern × String)}
    (hl : ∀ rule ∈ l, ∃ c ∈ rule.2.toList, isSpace c = false) {x : List Char} (hx : ¬ Blank x) :
    ¬ Blank (l.foldl (fun text rule => substitute alnum rule text) x) := by
  induction l generalizing x with
  | nil => exact hx
  | cons rule l ih =>
      obtain ⟨hrule, hl⟩ := List.forall_mem_cons.mp hl
      rw [List.foldl_cons]
      apply ih hl
      intro hblank
      rcases sub_same_or_has (matcher alnum rule.1) rule.2.toList (x := x) (p := none) with h | h
      · exact hx (h ▸ hblank)
      · obtain ⟨c, hc, hvisible⟩ := hrule
        exact absurd (hblank c (h c hc)) (by simp [hvisible])

theorem placeholders_visible : ∀ rule ∈ rules, ∃ c ∈ rule.2.toList, isSpace c = false := by
  have hbracket : ∀ rule ∈ rules, '<' ∈ rule.2.toList := by decide +kernel
  exact fun rule hrule => ⟨'<', hbracket rule hrule, rfl⟩

theorem normalized_eq_nil_iff {x : List Char} : normalized alnum x = [] ↔ Blank x := by
  constructor
  · intro h
    by_contra hx
    have hreplaced : ¬ Blank (replaced alnum x) := foldl_not_blank placeholders_visible hx
    rcases blank_or_first (replaced alnum x) with hblank | ⟨s, c, z, hsplit, hs, hc⟩
    · exact hreplaced hblank
    · rw [normalized, hsplit, collapse_first hs hc] at h
      exact absurd h (by simp)
  · intro hx
    rw [normalized, replaced_of_blank hx, collapse_of_blank hx]

/-! ## Lines -/

/-- The texts of the lines, without the empty ones. -/
def texts (alnum : Char → Bool) (lines : List (List Char)) : List (List Char) :=
  (lines.map (normalized alnum)).filter (· ≠ [])

theorem spaced_intercalate (x : List Char) {texts : List (List Char)} (h : ∀ t ∈ texts, t ≠ []) :
    spaced x ([' '].intercalate texts) = [' '].intercalate (if x = [] then texts else x :: texts) := by
  unfold spaced
  by_cases hx : x = []
  · rw [if_pos hx, if_pos hx]
  · rw [if_neg hx, if_neg hx]
    cases texts with
    | nil => simp
    | cons t rest =>
        have hne : [' '].intercalate (t :: rest) ≠ [] := by
          have ht := h t List.mem_cons_self
          cases rest <;> simp [ht]
        rw [if_neg hne, List.intercalate_cons_cons]
        simp

section Messages

variable {Bytes : Type} {py : Platform Bytes}

/-- `str.lower` works line by line, and neither makes nor loses white space. -/
structure LowerLines (py : Platform Bytes) : Prop where
  newline : ∀ a b : String, py.lower (a ++ "\n" ++ b) = py.lower a ++ "\n" ++ py.lower b
  blank : ∀ text : String, strip (py.lower text) = "" ↔ strip text = ""

theorem strip_eq_empty_iff (text : String) : strip text = "" ↔ Blank text.toList := by
  constructor
  · intro h
    by_contra hblank
    rcases blank_or_first text.toList with hx | ⟨s, c, z, hsplit, -, hc⟩
    · exact hblank hx
    · have husable := usableMessage_of_visible (m := text) (c := c) (by rw [hsplit]; simp) hc
      rw [usableMessage, if_pos h] at husable
      exact absurd husable (by simp)
  · intro h
    rw [strip, stripBy, List.dropWhile_eq_nil_iff.mpr h]
    rfl

/-- A text as `normalize_failure` returns it: nothing, or the text and its fingerprint. -/
def withFingerprint (py : Platform Bytes) (text : List Char) : Option (String × String) :=
  if text = [] then none
  else some (String.ofList text,
    String.ofList ((py.sha256hex (String.ofList text)).toList.take 12))

theorem normalizeFailure_eq (hre : ReFaithful py alnum) (hlower : LowerLines py)
    (message : String) : normalizeFailure py (.str message) =
      withFingerprint py (normalized alnum (py.lower message).toList) := by
  have htext := foldl_normalizations hre (py.lower message)
  have hblank : normalized alnum (py.lower message).toList = [] ↔ strip message = "" := by
    rw [normalized_eq_nil_iff, ← strip_eq_empty_iff, hlower.blank]
  rw [normalizeFailure, usableMessage, withFingerprint]
  by_cases hempty : strip message = ""
  · rw [if_pos hempty, if_pos (hblank.mpr hempty), Option.map_none]
  · rw [if_neg hempty, if_neg fun h => hempty (hblank.mp h), Option.map_some]
    dsimp only
    rw [htext, normalized]

theorem normalized_lines (hlower : LowerLines py) (lines : List String) :
    normalized alnum (py.lower ("\n".intercalate lines)).toList =
      [' '].intercalate (texts alnum (lines.map fun line => (py.lower line).toList)) := by
  have hnonempty : ∀ lines : List String,
      ∀ t ∈ texts alnum (lines.map fun line => (py.lower line).toList), t ≠ [] :=
    fun lines t ht => of_decide_eq_true (List.mem_filter.mp ht).2
  have hcons : ∀ (line : String) (lines : List String),
      spaced (normalized alnum (py.lower line).toList)
          ([' '].intercalate (texts alnum (lines.map fun line => (py.lower line).toList))) =
        [' '].intercalate
          (texts alnum ((line :: lines).map fun line => (py.lower line).toList)) := by
    intro line lines
    rw [spaced_intercalate _ (hnonempty lines), texts, texts, List.map_cons, List.map_cons,
      List.filter_cons]
    by_cases hempty : normalized alnum (py.lower line).toList = [] <;> simp [hempty]
  induction lines with
  | nil =>
      have hblank : Blank (py.lower "").toList := by
        rw [← strip_eq_empty_iff, hlower.blank]
        rfl
      rw [String.intercalate_nil, normalized_eq_nil_iff.mpr hblank]
      rfl
  | cons line lines ih =>
      by_cases hlines : lines = []
      · subst hlines
        rw [String.intercalate_singleton, ← hcons line []]
        show _ = spaced _ []
        unfold spaced
        split_ifs with h hnil
        · exact h
        · rfl
        · exact absurd rfl hnil
      · have hbreak : "\n".toList = ['\n'] := rfl
        rw [String.intercalate_cons_of_ne_nil hlines, hlower.newline, String.toList_append,
          String.toList_append, hbreak, List.append_assoc, List.singleton_append,
          normalized_newline, ih, hcons]

/-- The texts of the lines that have one, as `normalize_failure` returns them. -/
theorem filterMap_texts (hre : ReFaithful py alnum) (hlower : LowerLines py)
    (lines : List String) :
    lines.filterMap (fun line => (normalizeFailure py (.str line)).map Prod.fst) =
      (texts alnum (lines.map fun line => (py.lower line).toList)).map String.ofList := by
  induction lines with
  | nil => rfl
  | cons line lines ih =>
      rw [texts] at ih
      rw [List.filterMap_cons, normalizeFailure_eq hre hlower, withFingerprint, texts,
        List.map_cons, List.map_cons, List.filter_cons, ih]
      by_cases hempty : normalized alnum (py.lower line).toList = []
      · simp [hempty]
      · simp [hempty]

/-- A message is normalized line by line, for any lines: the text is that of its lines, joined by
    single spaces, and the fingerprint is that of the text; a line that is blank counts for
    nothing, and a message of such lines has neither. -/
theorem normalizeFailure_lines (hre : ReFaithful py alnum) (hlower : LowerLines py)
    (lines : List String) :
    normalizeFailure py (.str ("\n".intercalate lines)) =
      let texts := lines.filterMap fun line => (normalizeFailure py (.str line)).map Prod.fst
      if texts = [] then none
      else some (" ".intercalate texts,
        String.ofList ((py.sha256hex (" ".intercalate texts)).toList.take 12)) := by
  dsimp only
  rw [normalizeFailure_eq hre hlower, normalized_lines hlower, filterMap_texts hre hlower,
    withFingerprint]
  have hnonempty : ∀ t ∈ texts alnum (lines.map fun line => (py.lower line).toList), t ≠ [] :=
    fun t ht => of_decide_eq_true (List.mem_filter.mp ht).2
  generalize texts alnum (lines.map fun line => (py.lower line).toList) = found at hnonempty
  have hjoin : " ".intercalate (found.map String.ofList) =
      String.ofList ([' '].intercalate found) := by
    have hchars : (found.map String.ofList).map String.toList = found := by
      rw [List.map_map]
      exact List.map_id'' (fun t => String.toList_ofList) found
    have hspace : " ".toList = [' '] := rfl
    rw [← String.toList_inj, String.toList_intercalate, hchars, hspace]
    exact String.toList_ofList.symm
  rw [hjoin]
  cases found with
  | nil => rfl
  | cons t rest =>
      have hne : [' '].intercalate (t :: rest) ≠ [] := by
        have ht := hnonempty t List.mem_cons_self
        cases rest <;> simp [ht]
      rw [if_neg hne, if_neg (by simp)]

theorem isSpace_toLower (c : Char) : isSpace c.toLower = isSpace c := by
  have hascii : ∀ n < 128, isSpace (Char.ofNat n).toLower = isSpace (Char.ofNat n) := by decide
  by_cases hupper : c.val ≥ 'A'.val ∧ c.val ≤ 'Z'.val
  · have hle : c.toNat ≤ 90 := hupper.2
    have hcode := hascii c.toNat (by omega)
    rwa [Char.ofNat_toNat] at hcode
  · have hsame : c.toLower = c := dif_neg hupper
    rw [hsame]

theorem matching_lowerLines : LowerLines matching where
  newline a b := by
    show String.ofList ((a ++ "\n" ++ b).toList.map Char.toLower) =
      String.ofList (a.toList.map Char.toLower) ++ "\n" ++ String.ofList (b.toList.map Char.toLower)
    apply String.toList_injective
    simp
  blank text := by
    have hlower : (matching.lower text).toList = text.toList.map Char.toLower :=
      String.toList_ofList
    rw [strip_eq_empty_iff, strip_eq_empty_iff, hlower, Blank, List.forall_mem_map]
    simp only [isSpace_toLower, Blank]

/-- Two lines with a blank one between them and one after. -/
theorem normalizeFailure_lines_matching :
    normalizeFailure matching
        (.str ("\n".intercalate ["Pod rust-verify-7gk2m failed", " ", "exit code 12345", ""])) =
      let texts := ["Pod rust-verify-7gk2m failed", " ", "exit code 12345", ""].filterMap
        fun line => (normalizeFailure matching (.str line)).map Prod.fst
      if texts = [] then none
      else some (" ".intercalate texts,
        String.ofList ((matching.sha256hex (" ".intercalate texts)).toList.take 12)) :=
  normalizeFailure_lines matching_reFaithful matching_lowerLines _

end Messages

end ArgoExporter.FailureTaxonomy
