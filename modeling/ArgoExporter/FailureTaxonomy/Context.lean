/-
  ArgoExporter.FailureTaxonomy.Context

  A token between spaces is normalized by itself: none of the rules takes a
  space or looks past one, but for the space inside a timestamp.  Two messages
  that differ in one token therefore have one normalized text exactly when the
  two tokens have.
-/

import ArgoExporter.FailureTaxonomy.Patterns
import ArgoExporter.Lib.RegexWords

namespace ArgoExporter.FailureTaxonomy

open ArgoExporter.Lib
open ArgoExporter.Lib.Regex
open ArgoExporter.Py

variable {alnum : Char → Bool}

/-! ## Tokens between spaces -/

/-- `x` after `before` and before `after`, with the spaces between them. -/
def between (before after : Option (List Char)) (x : List Char) : List Char :=
  (before.elim [] fun text => text ++ [' ']) ++ (x ++ after.elim [] fun text => ' ' :: text)

/-- What must hold of a token for a timestamp not to reach into it: it does not start as a clock
    does, and does not end as a date. -/
structure Guarded (x : List Char) : Prop where
  start : ∃ c d e w, x = c :: d :: e :: w ∧ e ≠ ':'
  finish : ∀ u d e, x ≠ u ++ ['-', d, e]

theorem sub_between_of_avoids {rule : Regex} (h : rule.avoids ' ') (replacement : List Char)
    (before after : Option (List Char)) (x : List Char) :
    rule.sub replacement (between before after x) =
      between (before.map (rule.sub replacement)) (after.map (rule.sub replacement))
        (rule.sub replacement x) := by
  -- the rule does not cross a blank, so it works on each side of one
  have hafter : rule.sub replacement (x ++ after.elim [] fun text => ' ' :: text) =
      rule.sub replacement x ++
        (after.map (rule.sub replacement)).elim [] fun text => ' ' :: text := by
    cases after with
    | none => rw [Option.elim_none, Option.map_none, Option.elim_none, List.append_nil,
        List.append_nil]
    | some text => exact sub_separator h replacement x text
  cases before with
  | none => exact hafter
  | some text =>
      show rule.sub replacement ((text ++ [' ']) ++ _) = (rule.sub replacement text ++ [' ']) ++ _
      rw [List.append_assoc, List.append_assoc, List.singleton_append, sub_separator h, hafter]
      rfl

/-! ## Timestamps -/

/-- The day of a date, and what follows it in a timestamp. -/
def dayOn : Pattern :=
  .seq (literal '-') <| .seq (times 2 digit) <| .seq (.items false [.single ' ', .single 't']) clock

/-- `\d{4}-\d{2}`. -/
theorem tsRule_eq : tsRule =
    .seq .boundary (.seq (times 4 digit) (.seq (literal '-') (.seq (times 2 digit) dayOn))) := rfl

/-- After a text that ends as no date does, a space and more do not help a timestamp on. -/
theorem dayOn_commutesOn {x : List Char} (hx : ∀ u d e, x ≠ u ++ ['-', d, e]) (z : List Char) :
    CommutesOn x (extend (' ' :: z)) (matcher alnum dayOn).run := by
  rintro ⟨p, s⟩ ⟨u, hu⟩
  cases s with
  | nil => rfl
  | cons c s =>
      show ((matcher alnum (literal '-')).run (p, c :: (s ++ ' ' :: z))).flatMap _ =
        (((matcher alnum (literal '-')).run (p, c :: s)).flatMap _).map _
      have hdash : ∀ s, (matcher alnum (literal '-')).run (p, c :: s) =
          if c = '-' then [(some c, s)] else [] := by
        intro s
        show (if _ then _ else _) = _
        simp [ClassItem.has]
      rw [hdash, hdash]
      split_ifs with hc
      · simp only [List.flatMap_cons, List.flatMap_nil, List.append_nil]
        have hdigits : Commutes (extend (' ' :: z)) (matcher alnum (times 2 digit)).run :=
          run_extend_of_avoids rfl z
        show ((matcher alnum (times 2 digit)).run (extend (' ' :: z) (some c, s))).flatMap _ =
          (((matcher alnum (times 2 digit)).run (some c, s)).flatMap _).map _
        rw [hdigits, List.flatMap_map, List.map_flatMap]
        apply List.flatMap_congr
        rintro ⟨p', s'⟩ hq'
        obtain ⟨w, hlen, _, hs, -⟩ := mem_run_exactly_set hq'
        cases s' with
        | nil =>
            -- the text would end with the day
            match w, hlen with
            | [d, e], _ =>
                refine absurd ?_ (hx u d e)
                rw [← hu, show s = [d, e] from hs, hc]
        | cons f s' =>
            have hclock : Commutes (extend (' ' :: z)) (matcher alnum clock).run :=
              run_extend_of_avoids rfl z
            show (((matcher alnum (.items false [.single ' ', .single 't'])).run
                (p', f :: (s' ++ ' ' :: z))).flatMap (matcher alnum clock).run) =
              (((matcher alnum (.items false [.single ' ', .single 't'])).run
                (p', f :: s')).flatMap (matcher alnum clock).run).map _
            show ((if _ then _ else _) : List Position).flatMap _ =
              (((if _ then _ else _) : List Position).flatMap _).map _
            split_ifs
            · simp only [List.flatMap_cons, List.flatMap_nil, List.append_nil]
              exact hclock (some f, s')
            · rfl
      · rfl

/-- A clock time does not start with the token. -/
theorem clock_run_of_guarded {x : List Char} (hx : Guarded x) (rest : List Char)
    (p : Option Char) : (matcher alnum clock).run (p, x ++ rest) = [] := by
  obtain ⟨c, d, e, w, rfl, he⟩ := hx.start
  apply List.flatMap_eq_nil_iff.mpr
  rintro ⟨p', s⟩ hq
  obtain ⟨v, hlen, _, hs, -⟩ := mem_run_exactly_set hq
  match v, hlen with
  | [c', d'], _ =>
      obtain ⟨_, _, rfl⟩ : c = c' ∧ d = d' ∧ e :: (w ++ rest) = s := by simpa using hs
      show ((if _ then _ else _) : List Position).flatMap _ = []
      rw [if_neg (by simpa [ClassItem.has] using he), List.flatMap_nil]

/-- A date before the token is no timestamp with it. -/
theorem tsRule_commutes {z : List Char} (hz : ∀ p, (matcher alnum clock).run (p, z) = []) :
    Commutes (extend (' ' :: z)) (matcher alnum tsRule).run := by
  rw [tsRule_eq]
  refine Commutes.seq (run_extend_of_avoids rfl z) <| .seq (run_extend_of_avoids rfl z) <|
    .seq (run_extend_of_avoids rfl z) <| .seq (run_extend_of_avoids rfl z) <|
    .seq (run_extend_of_avoids rfl z) <| .seq (run_extend_of_avoids rfl z) ?_
  exact Commutes.set_seq (run_extend_of_avoids rfl z) hz _

theorem tsRule_commutesOn {x : List Char} (hx : ∀ u d e, x ≠ u ++ ['-', d, e]) (z : List Char) :
    CommutesOn x (extend (' ' :: z)) (matcher alnum tsRule).run := by
  rw [tsRule_eq]
  refine CommutesOn.seq ((run_extend_of_avoids rfl z).on x) <|
    .seq ((run_extend_of_avoids rfl z).on x) <| .seq ((run_extend_of_avoids rfl z).on x) <|
    .seq ((run_extend_of_avoids rfl z).on x) (dayOn_commutesOn hx z)

theorem sub_between_tsRule (replacement : List Char) (before after : Option (List Char))
    {x : List Char} (hx : Guarded x) :
    (matcher alnum tsRule).sub replacement (between before after x) =
      between (before.map ((matcher alnum tsRule).sub replacement))
        (after.map ((matcher alnum tsRule).sub replacement))
        ((matcher alnum tsRule).sub replacement x) := by
  have hspace : (matcher alnum tsRule).overlooks ' ' := rfl
  have hafter : (matcher alnum tsRule).sub replacement
        (x ++ after.elim [] fun text => ' ' :: text) =
      (matcher alnum tsRule).sub replacement x ++
        (after.map ((matcher alnum tsRule).sub replacement)).elim [] fun text => ' ' :: text := by
    cases after with
    | none => rw [Option.elim_none, Option.map_none, Option.elim_none, List.append_nil,
        List.append_nil]
    | some text => exact sub_around (tsRule_commutesOn hx.finish text) hspace replacement
  cases before with
  | none => exact hafter
  | some text =>
      show (matcher alnum tsRule).sub replacement ((text ++ [' ']) ++ _) =
        ((matcher alnum tsRule).sub replacement text ++ [' ']) ++ _
      rw [List.append_assoc, List.append_assoc, List.singleton_append,
        sub_around ((tsRule_commutes (clock_run_of_guarded hx _)).on text) hspace, hafter]
      rfl

/-! ## All rules -/

/-- What the rules make of a text. -/
def replaced (alnum : Char → Bool) (text : List Char) : List Char :=
  rules.foldl (fun text rule => substitute alnum rule text) text

theorem foldl_between {l : List (Pattern × String)}
    (hl : ∀ rule ∈ l, (matcher alnum rule.1).avoids ' ') (before after : Option (List Char))
    (x : List Char) :
    l.foldl (fun text rule => substitute alnum rule text) (between before after x) =
      between (before.map fun text => l.foldl (fun text rule => substitute alnum rule text) text)
        (after.map fun text => l.foldl (fun text rule => substitute alnum rule text) text)
        (l.foldl (fun text rule => substitute alnum rule text) x) := by
  induction l generalizing before after x with
  | nil => cases before <;> cases after <;> rfl
  | cons rule l ih =>
      obtain ⟨hrule, hl⟩ := List.forall_mem_cons.mp hl
      rw [List.foldl_cons, substitute, sub_between_of_avoids hrule, ih hl, Option.map_map,
        Option.map_map]
      rfl

/-- The rules treat a token between spaces and the texts around it apart. -/
theorem replaced_between (before after : Option (List Char)) {x : List Char}
    (hx : Guarded (substitute alnum (uuidRule, "<uuid>") x)) :
    replaced alnum (between before after x) =
      between (before.map (replaced alnum)) (after.map (replaced alnum)) (replaced alnum x) := by
  -- the rules after the timestamp do not cross a blank
  have hrest : ∀ rule ∈ rules.drop 2, (matcher alnum rule.1).avoids ' ' := by
    intro rule hrule
    simp only [rules, List.drop_succ_cons, List.drop_zero, List.mem_cons, List.not_mem_nil,
      or_false] at hrule
    rcases hrule with rfl | rfl | rfl | rfl | rfl | rfl | rfl | rfl <;> rfl
  let uuid := substitute alnum (uuidRule, "<uuid>")
  let ts := substitute alnum (tsRule, "<ts>")
  have huuid : uuid (between before after x) =
      between (before.map uuid) (after.map uuid) (uuid x) :=
    sub_between_of_avoids rfl _ before after x
  have hts : ts (between (before.map uuid) (after.map uuid) (uuid x)) =
      between ((before.map uuid).map ts) ((after.map uuid).map ts) (ts (uuid x)) :=
    sub_between_tsRule _ _ _ hx
  show (rules.drop 2).foldl (fun text rule => substitute alnum rule text)
      (ts (uuid (between before after x))) = _
  rw [huuid, hts, foldl_between hrest, Option.map_map, Option.map_map, Option.map_map,
    Option.map_map]
  rfl

theorem foldl_reSub {Bytes : Type} {py : Platform Bytes} {l : List (String × String)}
    {l' : List (Pattern × String)}
    (hparse : l.map (fun rule => (parsePattern rule.1, rule.2)) =
      l'.map fun rule => (some rule.1, rule.2))
    (hre : ∀ pattern ∈ l.map Prod.fst, ∀ rule, parsePattern pattern = some rule →
      ∀ replacement text, py.reSub pattern replacement text =
        String.ofList ((matcher alnum rule).sub replacement.toList text.toList))
    (text : String) :
    l.foldl (fun text rule => py.reSub rule.1 rule.2 text) text =
      String.ofList (l'.foldl (fun text rule => substitute alnum rule text) text.toList) := by
  induction l generalizing l' text with
  | nil =>
      rw [List.map_eq_nil_iff.mp hparse.symm]
      simp
  | cons rule l ih =>
      cases l' with
      | nil => exact absurd hparse (by simp)
      | cons rule' l' =>
          rw [List.map_cons, List.map_cons, List.cons.injEq, Prod.mk.injEq] at hparse
          obtain ⟨⟨hrule, hreplacement⟩, hparse⟩ := hparse
          rw [List.map_cons, List.forall_mem_cons] at hre
          rw [List.foldl_cons, List.foldl_cons, hre.1 _ hrule, ih hparse hre.2, hreplacement,
            String.toList_ofList]
          rfl

/-! ## White space -/

/-- `re.sub(r"\s+", " ", text).strip()`. -/
def collapse (alnum : Char → Bool) (text : List Char) : List Char :=
  stripBy isSpace ((matcher alnum blanks).sub [' '] text)

theorem blanks_avoids {c : Char} (hc : isSpace c = false) : (matcher alnum blanks).avoids c := by
  show (!([ClassItem.space].any fun item => item.has (reKinds alnum) c)) = true
  simpa [ClassItem.has, reKinds] using hc

theorem sub_blanks_append {x : List Char} (hx : ∀ c ∈ x, isSpace c = false) (z : List Char) :
    (matcher alnum blanks).sub [' '] (x ++ z) = x ++ (matcher alnum blanks).sub [' '] z := by
  induction x with
  | nil => rfl
  | cons c x ih =>
      obtain ⟨hc, hx⟩ := List.forall_mem_cons.mp hx
      have havoids : (matcher alnum blanks).avoids c := blanks_avoids hc
      have hsplit := sub_separator havoids [' '] [] (x ++ z)
      rw [List.nil_append] at hsplit
      rw [List.cons_append, hsplit, ih hx]
      rfl

theorem sub_blanks_around {x : List Char} (hne : x ≠ []) (hx : ∀ c ∈ x, isSpace c = false)
    (a z : List Char) :
    (matcher alnum blanks).sub [' '] (a ++ (x ++ z)) =
      (matcher alnum blanks).sub [' '] a ++ (x ++ (matcher alnum blanks).sub [' '] z) := by
  obtain ⟨c, x, rfl⟩ := List.exists_cons_of_ne_nil hne
  obtain ⟨hc, hx⟩ := List.forall_mem_cons.mp hx
  rw [List.cons_append, sub_separator (blanks_avoids hc), sub_blanks_append hx, List.cons_append]

theorem dropWhile_append_of_head {α : Type} {p : α → Bool} {x : List α} (hne : x ≠ [])
    (hx : ∀ c ∈ x, p c = false) (a z : List α) :
    (a ++ (x ++ z)).dropWhile p = a.dropWhile p ++ (x ++ z) := by
  obtain ⟨c, x, rfl⟩ := List.exists_cons_of_ne_nil hne
  have hhead : (c :: x ++ z).dropWhile p = c :: x ++ z := by
    rw [List.cons_append, List.dropWhile_cons, if_neg]
    rw [hx c List.mem_cons_self]
    simp
  rw [List.dropWhile_append, hhead]
  split_ifs with hempty
  · rw [List.isEmpty_iff.mp hempty, List.nil_append]
  · rfl

theorem stripBy_around {p : Char → Bool} {x : List Char} (hne : x ≠ [])
    (hx : ∀ c ∈ x, p c = false) (a z : List Char) :
    stripBy p (a ++ (x ++ z)) = a.dropWhile p ++ (x ++ z.rdropWhile p) := by
  have hrev : ∀ c ∈ x.reverse, p c = false := fun c hc => hx c (List.mem_reverse.mp hc)
  have hne' : x.reverse ≠ [] := fun h => hne (List.reverse_eq_nil_iff.mp h)
  rw [stripBy, dropWhile_append_of_head hne hx, List.rdropWhile, List.reverse_append,
    List.reverse_append, List.append_assoc, dropWhile_append_of_head hne' hrev,
    List.reverse_append, List.reverse_append, List.reverse_reverse, List.reverse_reverse,
    List.append_assoc]
  rfl

/-- Collapsing leaves a token alone, and does not depend on it elsewhere. -/
theorem collapse_between (alnum : Char → Bool) (before after : Option (List Char)) :
    ∃ front back, ∀ x, x ≠ [] → (∀ c ∈ x, isSpace c = false) →
      collapse alnum (between before after x) = front ++ (x ++ back) := by
  refine ⟨((matcher alnum blanks).sub [' ']
      (before.elim [] fun text => text ++ [' '])).dropWhile isSpace,
    ((matcher alnum blanks).sub [' '] (after.elim [] fun text => ' ' :: text)).rdropWhile isSpace,
    fun x hne hx => ?_⟩
  rw [collapse, between, sub_blanks_around hne hx, stripBy_around hne hx]

/-! ## Messages -/

section Messages

variable {Bytes : Type} {py : Platform Bytes}

theorem usableMessage_of_visible {m : String} {c : Char} (hc : c ∈ m.toList)
    (hspace : isSpace c = false) : usableMessage (.str m) = some m := by
  rw [usableMessage, if_neg]
  intro hempty
  have hnil : stripBy isSpace m.toList = [] := by
    have := congrArg String.toList hempty
    rwa [strip, String.toList_ofList] at this
  rw [stripBy, List.rdropWhile_eq_nil_iff] at hnil
  -- stripping on the left stops before the visible character
  have hkept : c ∈ m.toList.dropWhile isSpace := by
    have hsplit := List.takeWhile_append_dropWhile (p := isSpace) (l := m.toList)
    rw [← hsplit] at hc
    rcases List.mem_append.mp hc with h | h
    · exact absurd (List.mem_takeWhile_imp h) (by simp [hspace])
    · exact h
  exact absurd (hnil c hkept) (by simp [hspace])

theorem foldl_normalizations (hre : ReFaithful py alnum) (text : String) :
    strip (py.reSub "\\s+" " "
      (normalizations.foldl (fun text rule => py.reSub rule.1 rule.2 text) text)) =
      String.ofList (collapse alnum (replaced alnum text.toList)) := by
  have hreplaced := foldl_reSub parse_normalizations hre.rules text
  rw [← replaced] at hreplaced
  have hspace : " ".toList = [' '] := String.toList_ofList
  rw [hreplaced, hre.blanks, hspace, strip, String.toList_ofList, String.toList_ofList, collapse]

/-- The fingerprint is a function of the text. -/
theorem normalizeFailure_eq_iff (hre : ReFaithful py alnum) {m n : String}
    (hm : usableMessage (.str m) = some m) (hn : usableMessage (.str n) = some n) :
    normalizeFailure py (.str m) = normalizeFailure py (.str n) ↔
      collapse alnum (replaced alnum (py.lower m).toList) =
        collapse alnum (replaced alnum (py.lower n).toList) := by
  have hmtext := foldl_normalizations hre (py.lower m)
  have hntext := foldl_normalizations hre (py.lower n)
  rw [normalizeFailure, normalizeFailure, hm, hn, Option.map_some, Option.map_some]
  dsimp only
  rw [hmtext, hntext]
  generalize collapse alnum (replaced alnum (py.lower m).toList) = text
  generalize collapse alnum (replaced alnum (py.lower n).toList) = text'
  constructor
  · intro h
    rw [Option.some.injEq, Prod.mk.injEq] at h
    exact String.ofList_injective h.1
  · intro h
    rw [h]

/-- A text before a token: nothing, or something and a space. -/
def Before (text : String) : Prop := text = "" ∨ ∃ front, text = front ++ " "

/-- A text after a token: nothing, or a space and something. -/
def After (text : String) : Prop := text = "" ∨ ∃ back, text = " " ++ back

/-- Between spaces, a token becomes small by itself. -/
theorem lower_around (hlower : LowerFaithful py) {P S : String} (hP : Before P) (hS : After S) :
    ∃ before after, ∀ x : String, (∀ c ∈ x.toList, c.toNat < 128) →
      (py.lower (P ++ x ++ S)).toList = between before after (x.toList.map Char.toLower) := by
  rcases hP with rfl | ⟨front, rfl⟩ <;> rcases hS with rfl | ⟨back, rfl⟩
  · refine ⟨none, none, fun x hx => ?_⟩
    rw [String.empty_append, String.append_empty, hlower.ascii x hx, String.toList_ofList]
    simp [between]
  · refine ⟨none, some (py.lower back).toList, fun x hx => ?_⟩
    rw [String.empty_append, ← String.append_assoc, hlower.space, hlower.ascii x hx]
    simp [between]
  · refine ⟨some (py.lower front).toList, none, fun x hx => ?_⟩
    rw [String.append_empty, hlower.space, hlower.ascii x hx]
    simp [between]
  · refine ⟨some (py.lower front).toList, some (py.lower back).toList, fun x hx => ?_⟩
    rw [← String.append_assoc, hlower.space, hlower.space, hlower.ascii x hx]
    simp [between]

/-- A token that no timestamp around it reaches into, and that is one word of the normalized
    text. -/
structure Token (alnum : Char → Bool) (x : String) : Prop where
  ascii : ∀ c ∈ x.toList, c.toNat < 128
  visible : ∃ c ∈ x.toList, isSpace c = false
  guarded : Guarded (substitute alnum (uuidRule, "<uuid>") (x.toList.map Char.toLower))
  oneWord : ∀ c ∈ replaced alnum (x.toList.map Char.toLower), isSpace c = false

theorem foldl_substitute_visible {l : List (Pattern × String)}
    (hl : ∀ rule ∈ l, ∀ c ∈ rule.2.toList, isSpace c = false) {x : List Char}
    (hx : ∀ c ∈ x, isSpace c = false) :
    ∀ c ∈ l.foldl (fun text rule => substitute alnum rule text) x, isSpace c = false := by
  induction l generalizing x with
  | nil => exact hx
  | cons rule l ih =>
      obtain ⟨hrule, hl⟩ := List.forall_mem_cons.mp hl
      rw [List.foldl_cons]
      apply ih hl
      intro c hc
      exact (mem_subFrom hc).elim (hx c) (hrule c)

theorem foldl_substitute_ne_nil {l : List (Pattern × String)}
    (hl : ∀ rule ∈ l, rule.2.toList ≠ []) {x : List Char} (hx : x ≠ []) :
    l.foldl (fun text rule => substitute alnum rule text) x ≠ [] := by
  induction l generalizing x with
  | nil => exact hx
  | cons rule l ih =>
      obtain ⟨hrule, hl⟩ := List.forall_mem_cons.mp hl
      rw [List.foldl_cons]
      exact ih hl (sub_ne_nil _ hrule hx)

/-- Two messages that differ in one token have one normalized text exactly when the rules make
    the same of the tokens. -/
theorem normalizeFailure_around_iff (hre : ReFaithful py alnum) (hlower : LowerFaithful py)
    {P S : String} (hP : Before P) (hS : After S) {x y : String} (hx : Token alnum x)
    (hy : Token alnum y) :
    normalizeFailure py (.str (P ++ x ++ S)) = normalizeFailure py (.str (P ++ y ++ S)) ↔
      replaced alnum (x.toList.map Char.toLower) = replaced alnum (y.toList.map Char.toLower) := by
  have husable : ∀ z, Token alnum z → usableMessage (.str (P ++ z ++ S)) = some (P ++ z ++ S) := by
    intro z hz
    obtain ⟨c, hc, hspace⟩ := hz.visible
    exact usableMessage_of_visible (by simp [hc]) hspace
  obtain ⟨before, after, htext⟩ := lower_around hlower hP hS
  obtain ⟨front, back, hcollapse⟩ := collapse_between alnum
    (before.map (replaced alnum)) (after.map (replaced alnum))
  -- what stands around the token is normalized by itself
  have hnormal : ∀ z, Token alnum z →
      collapse alnum (replaced alnum (py.lower (P ++ z ++ S)).toList) =
        front ++ (replaced alnum (z.toList.map Char.toLower) ++ back) := by
    intro z hz
    rw [htext z hz.ascii, replaced_between before after hz.guarded]
    apply hcollapse _ _ hz.oneWord
    obtain ⟨c, hc, _⟩ := hz.visible
    exact foldl_substitute_ne_nil (by decide) (List.ne_nil_of_mem (List.mem_map_of_mem hc))
  rw [normalizeFailure_eq_iff hre (husable x hx) (husable y hy), hnormal x hx, hnormal y hy,
    List.append_cancel_left_eq, List.append_cancel_right_eq]

end Messages

end ArgoExporter.FailureTaxonomy
