/-
  ArgoExporter.FailureTaxonomy.Segments

  A name of segments with dashes between them.  A rule that starts at a word
  boundary and takes no dash at first reads such a name from segment to
  segment: a segment it does not match from is kept, with the dash behind it.
-/

import ArgoExporter.FailureTaxonomy.Tokens

namespace ArgoExporter.FailureTaxonomy

open ArgoExporter.Lib
open ArgoExporter.Lib.Regex
open ArgoExporter.Py

variable {alnum : Char → Bool}

/-! ## Names -/

/-- A word, or the placeholder of what stood there. -/
inductive Segment where
  | word (w : List Char)
  | mark (name : List Char)
  deriving DecidableEq

namespace Segment

def text : Segment → List Char
  | word w => w
  | mark name => '<' :: (name ++ ['>'])

def isPlain : Segment → Bool
  | word _ => true
  | mark _ => false

/-- Characters of the word, or of the placeholder's name. -/
def chars : Segment → List Char
  | word w => w
  | mark name => name

/-- A segment of small letters and digits; a placeholder has letters only. -/
structure Ok (s : Segment) : Prop where
  ne_nil : s.chars ≠ []
  lower : ∀ c ∈ s.chars, isLowerAlnum c
  letters : s.isPlain = false → ∀ c ∈ s.chars, ¬ isDigit c

end Segment

/-- Segments with a dash before each. -/
def dashed (l : List Segment) : List Char := l.flatMap fun s => '-' :: s.text

/-- Segments with dashes between them. -/
def joined : List Segment → List Char
  | [] => []
  | s :: l => s.text ++ dashed l

@[simp] theorem dashed_nil : dashed [] = [] := rfl

@[simp] theorem dashed_cons (s : Segment) (l : List Segment) :
    dashed (s :: l) = '-' :: (s.text ++ dashed l) := List.flatMap_cons

theorem dashed_append (l l' : List Segment) : dashed (l ++ l') = dashed l ++ dashed l' :=
  List.flatMap_append

theorem dashed_eq {l : List Segment} (h : l ≠ []) : dashed l = '-' :: joined l := by
  obtain ⟨s, l, rfl⟩ := List.exists_cons_of_ne_nil h
  exact dashed_cons s l

theorem joined_append {l : List Segment} (h : l ≠ []) (l' : List Segment) :
    joined (l ++ l') = joined l ++ dashed l' := by
  obtain ⟨s, l, rfl⟩ := List.exists_cons_of_ne_nil h
  rw [List.cons_append, joined, joined, dashed_append, List.append_assoc]

theorem mem_dashed {c : Char} {l : List Segment} (h : c ∈ dashed l) :
    c = '-' ∨ ∃ s ∈ l, c ∈ s.text := by
  obtain ⟨s, hs, h⟩ := List.mem_flatMap.mp h
  rcases List.mem_cons.mp h with h | h
  · exact Or.inl h
  · exact Or.inr ⟨s, hs, h⟩

theorem mem_joined {c : Char} {l : List Segment} (h : c ∈ joined l) :
    c = '-' ∨ ∃ s ∈ l, c ∈ s.text := by
  cases l with
  | nil => exact absurd h (by simp [joined])
  | cons s l =>
      rcases List.mem_append.mp h with h | h
      · exact Or.inr ⟨s, List.mem_cons_self, h⟩
      · exact (mem_dashed h).imp_right fun ⟨t, ht, h⟩ => ⟨t, List.mem_cons_of_mem s ht, h⟩

/-- A name has no colon, slash or dot. -/
theorem joined_lacks {l : List Segment} (hok : ∀ s ∈ l, s.Ok) {d : Char} (hd : d ∈ [':', '/', '.']) :
    ∀ c ∈ joined l, ¬ c = d := by
  -- segments and the dashes and brackets around them have none of the three
  have hother : d ≠ '-' ∧ d ≠ '<' ∧ d ≠ '>' ∧ ¬ isLowerAlnum d := by
    simp only [List.mem_cons, List.not_mem_nil, or_false] at hd
    rcases hd with rfl | rfl | rfl <;> decide
  rintro c hc rfl
  rcases mem_joined hc with hdash | ⟨s, hs, hc⟩
  · exact hother.1 hdash
  · cases s with
    | word w => exact hother.2.2.2 ((hok _ hs).lower c hc)
    | mark name =>
        have hcases : c = '<' ∨ c ∈ name ∨ c = '>' := by simpa [Segment.text] using hc
        rcases hcases with h | h | h
        · exact hother.2.1 h
        · exact hother.2.2.2 ((hok _ hs).lower c h)
        · exact hother.2.2.1 h

/-- Among small letters and digits, `\d` is an ASCII digit. -/
theorem isDigit_of_decimal {c : Char} (hc : isLowerAlnum c) (h : (decimal? c).isSome) :
    isDigit c := by
  rcases range_toNat hc with hletter | hdigit
  · have hzeros : ∀ z ∈ decimalZeros, z ≤ 48 ∨ 123 ≤ z := by decide
    rw [decimal?, List.findSome?_isSome_iff] at h
    obtain ⟨z, hz, h⟩ := h
    split_ifs at h with hrange
    · have := hzeros z hz
      omega
    · exact absurd h (by simp)
  · rw [isDigit, decide_eq_true_eq]
    exact hdigit

theorem mark_unmarked {name : List Char} (h : (Segment.mark name).Ok) :
    ∀ c ∈ (Segment.mark name).text, ¬ Marked c := by
  intro c hc
  have hcases : c = '<' ∨ c ∈ name ∨ c = '>' := by simpa [Segment.text] using hc
  rcases hcases with rfl | hc | rfl
  · decide
  · have hlower : isLowerAlnum c := h.lower c hc
    rintro (hdigit | hother)
    · exact h.letters rfl c hc (isDigit_of_decimal hlower hdigit)
    · simp only [List.mem_cons, List.not_mem_nil, or_false] at hother
      rcases hother with rfl | rfl | rfl | rfl <;> exact absurd hlower (by decide)
  · decide

/-- A placeholder is left alone. -/
theorem substitute_mark {rule : Pattern × String} (hrule : rule ∈ rules) {name : List Char}
    (h : (Segment.mark name).Ok) :
    substitute alnum rule (Segment.mark name).text = (Segment.mark name).text :=
  substitute_of_needs (rules_need rule hrule) (mark_unmarked h)

/-- A rule that takes no dash replaces in each segment by itself. -/
theorem sub_joined {r : Regex} (hr : r.avoids '-') (replacement : List Char)
    {f : Segment → Segment} {l : List Segment}
    (hf : ∀ s ∈ l, r.sub replacement s.text = (f s).text) :
    r.sub replacement (joined l) = joined (l.map f) := by
  induction l with
  | nil => rfl
  | cons s l ih =>
      obtain ⟨hs, hl⟩ := List.forall_mem_cons.mp hf
      cases l with
      | nil =>
          show r.sub replacement (s.text ++ []) = (f s).text ++ []
          rw [List.append_nil, List.append_nil, hs]
      | cons t l =>
          show r.sub replacement (s.text ++ dashed (t :: l)) =
            (f s).text ++ dashed ((t :: l).map f)
          rw [dashed_eq (List.cons_ne_nil t l), sub_separator hr, hs, ih hl,
            dashed_eq (by simp)]

/-! ## Reading a name -/

/-- What follows the boundary does not start with a dash or at the end of a placeholder. -/
structure Reads (t : Regex) : Prop where
  dash : ∀ p z, t.run (p, '-' :: z) = []
  close : ∀ p z, t.run (p, '>' :: z) = []
  overlooks : t.overlooks '-'

section Reading

variable {t : Regex} (replacement : List Char)

/-- The rule `t` behind a word boundary. -/
abbrev opened (alnum : Char → Bool) (t : Regex) : Regex := .seq (.boundary (isWord alnum)) t

/-- A dash is kept, and reading starts anew behind it. -/
theorem subFrom_dash (ht : Reads t) (z : List Char) (p : Option Char) :
    (opened alnum t).subFrom replacement 0 p ('-' :: z) =
      '-' :: (opened alnum t).sub replacement z := by
  have hover : (opened alnum t).overlooks '-' := by
    show (!isWord alnum '-' && t.overlooks '-') = true
    rw [ht.overlooks]
    rfl
  rw [subFrom_cons_of_nil _ (run_opened_of_nil (ht.dash p z) _), subFrom_follow hover, sub]

/-- From one name another is made. -/
structure Becomes (alnum : Char → Bool) (t : Regex) (l l' : List Segment) : Prop where
  text : (opened alnum t).sub replacement (joined l) = joined l'
  empty : l = [] ↔ l' = []

variable {replacement}

theorem Becomes.subFrom {l l' : List Segment} (h : Becomes replacement alnum t l l') (ht : Reads t)
    (p : Option Char) :
    (opened alnum t).subFrom replacement 0 p (dashed l) = dashed l' := by
  by_cases hl : l = []
  · rw [hl, h.empty.mp hl]
    rfl
  · rw [dashed_eq hl, dashed_eq (mt h.empty.mpr hl), subFrom_dash _ ht, h.text]

theorem Becomes.nil : Becomes replacement alnum t [] [] := ⟨rfl, Iff.rfl⟩

theorem Segment.Ok.word_chars {s : Segment} (h : s.Ok) : ∀ c ∈ s.chars, isWord alnum c :=
  fun c hc => isWord_of_isLowerAlnum (h.lower c hc)

/-- A word is kept if nothing is matched from its start. -/
theorem Becomes.keep_word {w : List Char} (hw : (Segment.word w).Ok) (ht : Reads t)
    {l l' : List Segment} (hstart : t.run (none, w ++ dashed l) = [])
    (h : Becomes replacement alnum t l l') :
    Becomes replacement alnum t (.word w :: l) (.word w :: l') where
  text := by
    have hword : ∀ c ∈ w, isWord alnum c := hw.word_chars
    show (opened alnum t).subFrom replacement 0 none (w ++ dashed l) = w ++ dashed l'
    rw [subFrom_word hword hstart, h.subFrom ht]
  empty := by simp

/-- A placeholder is kept. -/
theorem Becomes.keep_mark {name : List Char} (hname : (Segment.mark name).Ok) (ht : Reads t)
    {l l' : List Segment} (hstart : ∀ z, t.run (some '<', name ++ '>' :: z) = [])
    (h : Becomes replacement alnum t l l') :
    Becomes replacement alnum t (.mark name :: l) (.mark name :: l') where
  text := by
    have hword : ∀ c ∈ name, isWord alnum c := hname.word_chars
    -- no match starts at the bracket or inside the mark
    have hopen : (opened alnum t).run (none, '<' :: (name ++ '>' :: dashed l)) = [] := by
      rw [run_seq, run_boundary, if_neg, List.flatMap_nil]
      simp [isWord]
    show (opened alnum t).subFrom replacement 0 none ('<' :: ((name ++ ['>']) ++ dashed l)) = _
    rw [List.append_assoc, List.singleton_append, subFrom_cons_of_nil _ hopen,
      subFrom_word hword (hstart _),
      subFrom_cons_of_nil _ (run_opened_of_nil (ht.close _ _) _), h.subFrom ht]
    simp [joined, Segment.text]
  empty := by simp

/-- What is matched from the start is replaced. -/
theorem Becomes.replace (name : List Char) (ht : Reads t) {l l₁ l' : List Segment} (hne : l ≠ [])
    {p : Option Char}
    (hfirst : First (opened alnum t) (none, joined l) (p, dashed l₁))
    (hlen : (dashed l₁).length < (joined l).length)
    (h : Becomes (Segment.mark name).text alnum t l₁ l') :
    Becomes (Segment.mark name).text alnum t l (.mark name :: l') where
  text := by
    obtain ⟨_, hl⟩ := hfirst
    obtain ⟨w, hw, _⟩ := run_moves _ _ _ (hl ▸ List.mem_cons_self :
      (p, dashed l₁) ∈ (opened alnum t).run (none, joined l))
    have hw : joined l = w ++ dashed l₁ := hw
    have hwne : w ≠ [] := by
      rintro rfl
      rw [hw, List.nil_append] at hlen
      omega
    have hlength : (opened alnum t).firstLength (none, w ++ dashed l₁) = w.length :=
      First.firstLength ⟨_, hw ▸ hl⟩
    rw [hw, sub, subFrom_match _ hwne hlength, h.subFrom ht]
    rfl
  empty := by simp [hne]

end Reading

/-! ## UUIDs in a name -/

instance (accepts : Char → Bool) (n : Nat) (w : List Char) : Decidable (Run accepts n w) :=
  inferInstanceAs (Decidable (w.length = n ∧ ∀ c ∈ w, accepts c))

instance (a b c d e : List Char) : Decidable (UuidGroups a b c d e) :=
  decidable_of_iff
    (Run isHex 8 a ∧ Run isHex 4 b ∧ Run isHex 4 c ∧ Run isHex 4 d ∧ Run isHex 12 e)
    ⟨fun ⟨ha, hb, hc, hd, he⟩ => ⟨ha, hb, hc, hd, he⟩, fun h => ⟨h.1, h.2, h.3, h.4, h.5⟩⟩

/-- The segments of a name once its UUIDs are replaced. -/
def uuidScan : List (List Char) → List Segment
  | a :: b :: c :: d :: e :: l =>
      if UuidGroups a b c d e then .mark "uuid".toList :: uuidScan l
      else .word a :: uuidScan (b :: c :: d :: e :: l)
  | a :: l => .word a :: uuidScan l
  | [] => []

theorem not_dash_of_ok {s : Segment} (h : s.Ok) : '-' ∉ s.chars :=
  fun hdash => absurd (h.lower '-' hdash) (by decide)

/-- The part of a name before a dash is its first segment. -/
theorem split_at_dash {w a z : List Char} {l : List (List Char)} (hw : '-' ∉ w) (ha : '-' ∉ a)
    (h : w ++ dashed (l.map .word) = a ++ '-' :: z) :
    w = a ∧ ∃ b l', l = b :: l' ∧ z = b ++ dashed (l'.map .word) := by
  rcases List.append_eq_append_iff.mp h with ⟨a', rfl, hz⟩ | ⟨w', rfl, hz⟩
  · cases l with
    | nil => exact absurd hz (by simp)
    | cons b l =>
        rw [List.map_cons, dashed_cons] at hz
        cases a' with
        | nil =>
            rw [List.nil_append, List.cons.injEq] at hz
            exact ⟨(List.append_nil w).symm, b, l, rfl, hz.2.symm⟩
        -- the longer of the two would have a dash in it
        | cons c a' =>
            rw [List.cons_append, List.cons.injEq] at hz
            exact absurd (hz.1 ▸ List.mem_append_right w List.mem_cons_self) ha
  · cases w' with
    | nil =>
        cases l with
        | nil => exact absurd hz (by simp)
        | cons b l =>
            rw [List.map_cons, dashed_cons, List.nil_append, List.cons.injEq] at hz
            exact ⟨List.append_nil a, b, l, rfl, hz.2⟩
    | cons c w' =>
        rw [List.cons_append, List.cons.injEq] at hz
        exact absurd (hz.1 ▸ List.mem_append_right a List.mem_cons_self) hw

theorem dashed_head (l : List Segment) : (dashed l).head?.any (isWord alnum) = false := by
  cases l with
  | nil => rfl
  | cons s l =>
      rw [dashed_cons, List.head?_cons, Option.any_some]
      rfl

/-- A word that does not go on ends where its characters do. -/
theorem split_at_end {p : Char → Bool} {w a x z : List Char} (hw : ∀ c ∈ w, p c) (ha : ∀ c ∈ a, p c)
    (hx : x.head?.any p = false) (hz : z.head?.any p = false) (h : w ++ x = a ++ z) : w = a := by
  rcases List.append_eq_append_iff.mp h with ⟨a', rfl, rfl⟩ | ⟨w', rfl, rfl⟩
  · cases a' with
    | nil => exact (List.append_nil w).symm
    | cons c a' =>
        have hc := ha c (List.mem_append_right w List.mem_cons_self)
        rw [List.cons_append, List.head?_cons, Option.any_some, hc] at hx
        exact absurd hx (by simp)
  · cases w' with
    | nil => exact List.append_nil a
    | cons c w' =>
        have hc := hw c (List.mem_append_right a List.mem_cons_self)
        rw [List.cons_append, List.head?_cons, Option.any_some, hc] at hz
        exact absurd hz (by simp)

theorem not_dash_of_hex {n : Nat} {w : List Char} (h : Run isHex n w) : '-' ∉ w :=
  fun hdash => absurd (h.2 '-' hdash) (by decide)

/-- The rule matches from a segment on only if a UUID starts there. -/
theorem groups_of_run {a : List Char} {l : List (List Char)}
    (hok : ∀ w ∈ a :: l, (Segment.word w).Ok) {q : Position}
    (hq : q ∈ (matcher alnum (rest uuidRule)).run (none, a ++ dashed (l.map .word))) :
    ∃ b c d e l', l = b :: c :: d :: e :: l' ∧ UuidGroups a b c d e := by
  obtain ⟨a', b', c', d', e', hgroups, htext, hend⟩ := rest_uuidRule_text hq
  have htext : a ++ dashed (l.map .word) = uuidText a' b' c' d' e' q.2 := htext
  -- the dashes of the match are the dashes between the segments
  have hdash : ∀ w ∈ a :: l, '-' ∉ w := fun w hw => not_dash_of_ok (hok w hw)
  obtain ⟨rfl, b, l₁, rfl, hb⟩ :=
    split_at_dash (hdash a (by simp)) (not_dash_of_hex hgroups.first) htext
  obtain ⟨rfl, c, l₂, rfl, hc⟩ :=
    split_at_dash (hdash b (by simp)) (not_dash_of_hex hgroups.second) hb.symm
  obtain ⟨rfl, d, l₃, rfl, hd⟩ :=
    split_at_dash (hdash c (by simp)) (not_dash_of_hex hgroups.third) hc.symm
  obtain ⟨rfl, e, l₄, rfl, he⟩ :=
    split_at_dash (hdash d (by simp)) (not_dash_of_hex hgroups.fourth) hd.symm
  have hword : ∀ x ∈ e', isWord alnum x := fun x hx =>
    isWord_of_isLowerAlnum (isLowerAlnum_of_isHex (hgroups.fifth.2 x hx))
  obtain rfl : e = e' :=
    split_at_end (hok e (by simp)).word_chars hword (dashed_head _) hend he.symm
  exact ⟨b, c, d, e, l₄, rfl, hgroups⟩

theorem hex_run_of_not {c : Char} (hc : isHex c = false) (n : Nat) (p : Option Char)
    (z : List Char) : (matcher alnum (times (n + 1) hex)).run (p, c :: z) = [] := by
  show (exactly (n + 1) (matcher alnum hex)).run (p, c :: z) = []
  rw [matcher_hex, run_exactly, Regex.times, run_set_cons, hc, if_neg (by simp), List.flatMap_nil]

theorem uuidRule_reads : Reads (matcher alnum (rest uuidRule)) where
  dash p z := by
    show ((matcher alnum (times 8 hex)).run (p, '-' :: z)).flatMap _ = []
    rw [hex_run_of_not (by decide), List.flatMap_nil]
  close p z := by
    show ((matcher alnum (times 8 hex)).run (p, '>' :: z)).flatMap _ = []
    rw [hex_run_of_not (by decide), List.flatMap_nil]
  overlooks := rfl

theorem uuid_keep {a : List Char} {l : List (List Char)}
    (hok : ∀ w ∈ a :: l, (Segment.word w).Ok)
    (hnone : ∀ b c d e l', l = b :: c :: d :: e :: l' → ¬ UuidGroups a b c d e)
    {l' : List Segment}
    (h : Becomes "<uuid>".toList alnum (matcher alnum (rest uuidRule)) (l.map .word) l') :
    Becomes "<uuid>".toList alnum (matcher alnum (rest uuidRule)) ((a :: l).map .word)
      (.word a :: l') := by
  refine Becomes.keep_word (hok a List.mem_cons_self) uuidRule_reads ?_ h
  apply List.eq_nil_iff_forall_not_mem.mpr
  intro q hq
  obtain ⟨b, c, d, e, l', hl, hgroups⟩ := groups_of_run hok hq
  exact hnone b c d e l' hl hgroups

/-- The UUIDs of a name are replaced. -/
theorem uuid_of_name {l : List (List Char)} (hok : ∀ w ∈ l, (Segment.word w).Ok) :
    Becomes "<uuid>".toList alnum (matcher alnum (rest uuidRule)) (l.map .word) (uuidScan l) := by
  induction l using uuidScan.induct with
  | case1 a b c d e l hgroups ih =>
      have hrest := ih fun w hw => hok w (by simp [hw])
      obtain ⟨p, hfirst⟩ : ∃ p, First (matcher alnum uuidRule)
          (none, uuidText a b c d e (dashed (l.map .word))) (p, dashed (l.map .word)) :=
        first_uuid hgroups (dashed_head _) rfl
      have htext : uuidText a b c d e (dashed (l.map .word)) =
          joined ((a :: b :: c :: d :: e :: l).map .word) := by
        simp [uuidText, joined, Segment.text]
      rw [htext] at hfirst
      rw [uuidScan, if_pos hgroups]
      refine Becomes.replace "uuid".toList uuidRule_reads (by simp) hfirst ?_ hrest
      rw [← htext]
      simp [uuidText]
      omega
  | case2 a b c d e l hgroups ih =>
      rw [uuidScan, if_neg hgroups]
      refine uuid_keep hok ?_ (ih fun w hw => hok w (List.mem_cons_of_mem a hw))
      intro b' c' d' e' l' hl
      obtain ⟨rfl, rfl, rfl, rfl, rfl⟩ : b = b' ∧ c = c' ∧ d = d' ∧ e = e' ∧ l = l' := by
        simpa using hl
      exact hgroups
  | case3 a l hshort ih =>
      rw [uuidScan]
      · exact uuid_keep hok (fun b c d e l' hl => absurd hl (hshort b c d e l'))
          (ih fun w hw => hok w (List.mem_cons_of_mem a hw))
      · exact hshort
  | case4 => exact Becomes.nil

theorem uuidScan_ok {l : List (List Char)} (hok : ∀ w ∈ l, (Segment.word w).Ok) :
    ∀ s ∈ uuidScan l, s.Ok := by
  induction l using uuidScan.induct with
  | case1 a b c d e l hgroups ih =>
      rw [uuidScan, if_pos hgroups]
      exact List.forall_mem_cons.mpr ⟨⟨by decide, by decide, by decide⟩, ih fun w hw => hok w (by simp [hw])⟩
  | case2 a b c d e l hgroups ih =>
      rw [uuidScan, if_neg hgroups]
      exact List.forall_mem_cons.mpr ⟨hok a List.mem_cons_self,
        ih fun w hw => hok w (List.mem_cons_of_mem a hw)⟩
  | case3 a l hshort ih =>
      rw [uuidScan]
      · exact List.forall_mem_cons.mpr ⟨hok a List.mem_cons_self,
          ih fun w hw => hok w (List.mem_cons_of_mem a hw)⟩
      · exact hshort
  | case4 => simp [uuidScan]

theorem dash_commutes {s : List Char} {t : Pattern}
    (ht : Commutes (extend ('-' :: s)) (matcher alnum t).run)
    (hs : ∀ p, (matcher alnum t).run (p, s) = []) :
    Commutes (extend ('-' :: s)) (matcher alnum (.seq (literal '-') t)).run :=
  Commutes.set_seq ht hs _

theorem group_commutes {s : List Char} (hdash : '-' ∉ s) {t : Pattern}
    (ht : Commutes (extend ('-' :: s)) (matcher alnum (.seq (literal '-') t)).run) :
    Commutes (extend ('-' :: s))
      (matcher alnum (.seq (literal '-') (.seq (times 4 hex) (.seq (literal '-') t)))).run := by
  have hneeds : (matcher alnum (.seq (times 4 hex) (.seq (literal '-') t))).Needs (· = '-') :=
    Or.inr (Or.inl (literal_needs '-'))
  have hhex : Commutes (extend ('-' :: s)) (matcher alnum (times 4 hex)).run :=
    run_extend_of_avoids rfl s
  exact dash_commutes (hhex.seq ht) fun p => run_of_lacks hneeds fun c hc h => hdash (h ▸ hc)

/-- No UUID reaches into a short last segment. -/
theorem uuidRule_commutes {s : List Char} (hdash : '-' ∉ s) (hlen : s.length < 12) :
    Commutes (extend ('-' :: s)) (matcher alnum uuidRule).run := by
  have hstart : Commutes (extend ('-' :: s)) (matcher alnum .boundary).run :=
    run_extend_of_avoids rfl s
  have hhex : Commutes (extend ('-' :: s)) (matcher alnum (times 8 hex)).run :=
    run_extend_of_avoids rfl s
  have hlast : Commutes (extend ('-' :: s)) (matcher alnum (.seq (times 12 hex) .boundary)).run :=
    run_extend_of_avoids rfl s
  have hshort : ∀ p, (matcher alnum (.seq (times 12 hex) .boundary)).run (p, s) = [] :=
    fun p => run_of_short hlen
  exact hstart.seq <| hhex.seq <| group_commutes hdash <| group_commutes hdash <|
    group_commutes hdash <| dash_commutes hlast hshort

theorem substitute_uuid_of_name {l : List (List Char)} (hok : ∀ w ∈ l, (Segment.word w).Ok)
    {s : List Char} (hdash : '-' ∉ s) (hlen : s.length < 12) :
    substitute alnum (uuidRule, "<uuid>") (joined (l.map .word) ++ '-' :: s) =
      joined (uuidScan l) ++ '-' :: s := by
  have hover : (matcher alnum uuidRule).overlooks '-' := rfl
  have hs : (matcher alnum uuidRule).sub "<uuid>".toList s = s :=
    sub_of_lacks uuidRule_needs _ fun c hc h => hdash (h ▸ hc)
  have hname : (matcher alnum uuidRule).sub "<uuid>".toList (joined (l.map .word)) =
      joined (uuidScan l) := (uuid_of_name hok).text
  rw [substitute, sub_around ((uuidRule_commutes hdash hlen).on _) hover, hs, hname]

end ArgoExporter.FailureTaxonomy
