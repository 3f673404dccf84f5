/-
  ArgoExporter.FailureTaxonomy.Fingerprint

  When two messages that differ in one token have one fingerprint.  UUIDs,
  timestamps and IPv4 addresses always disappear.  A number of seven digits is
  taken for a hash, and a generated pod name keeps its suffix if that is a
  duration or stands where the pod rule does not get to.
-/

import ArgoExporter.FailureTaxonomy.PodNames
import ArgoExporter.Reference

namespace ArgoExporter.FailureTaxonomy

open ArgoExporter.Lib
open ArgoExporter.Lib.Regex
open ArgoExporter.Py

variable {alnum : Char → Bool}

/-! ## Hashes and numbers -/

/-- The last two rules. -/
def finish (alnum : Char → Bool) (text : List Char) : List Char :=
  substitute alnum (numberRule, "<n>") (substitute alnum (hashRule, "<hash>") text)

theorem finish_dash (a z : List Char) :
    finish alnum (a ++ '-' :: z) = finish alnum a ++ '-' :: finish alnum z := by
  have hhash : (matcher alnum hashRule).avoids '-' := rfl
  have hnumber : (matcher alnum numberRule).avoids '-' := rfl
  rw [finish, substitute, substitute, sub_separator hhash, sub_separator hnumber]
  rfl

theorem finish_mark {name : List Char} (h : (Segment.mark name).Ok) :
    finish alnum (Segment.mark name).text = (Segment.mark name).text := by
  rw [finish, substitute_mark (by simp [rules]) h, substitute_mark (by simp [rules]) h]

/-- The number rule replaces a word of digits only. -/
theorem substitute_number_of_other {w : List Char} (hw : ∀ c ∈ w, isLowerAlnum c)
    (h : ¬ ∀ c ∈ w, isDigit c) : substitute alnum (numberRule, "<n>") w = w := by
  have hword : ∀ c ∈ w, isWord alnum c := fun c hc => isWord_of_isLowerAlnum (hw c hc)
  have honly : (matcher alnum (rest numberRule)).Only fun c => (decimal? c).isSome := by
    refine ⟨?_, trivial⟩
    show (matcher alnum digit).Only _
    rw [digit, oneOf_singleton]
    exact fun c hc => hc
  -- a match would take the whole word, and the word has something else than digits
  have hnone : (matcher alnum (rest numberRule)).run (none, w) = [] := by
    apply List.eq_nil_iff_forall_not_mem.mpr
    intro q hq
    obtain ⟨v, hv, hdigits⟩ := over_of_mem_run honly _ q hq
    have hv : w = v ++ q.2 := hv
    rw [whole_of_mem_run numberRule_word.closed numberRule_word.takes hword hq,
      List.append_nil] at hv
    exact h fun c hc => isDigit_of_decimal (hw c hc) (hdigits c (hv ▸ hc))
  rw [substitute_word numberRule_word hword, hnone, List.isEmpty_nil, if_pos rfl]

/-- What the last two rules make of a word of five characters. -/
theorem finish_word {w : List Char} (hlen : w.length = 5) (hw : ∀ c ∈ w, isLowerAlnum c) :
    finish alnum w = if ∀ c ∈ w, isDigit c then "<n>".toList else w := by
  rw [finish, hash_of_short (by omega) fun c hc => isWord_of_isLowerAlnum (hw c hc)]
  split_ifs with hdigits
  · exact substitute_number ⟨by omega, hdigits⟩
  · exact substitute_number_of_other hw hdigits

/-! ## Generated pod names -/

/-- Two or more segments of small letters and digits. -/
def PodBase (base : List (List Char)) : Prop :=
  2 ≤ base.length ∧ ∀ w ∈ base, w ≠ [] ∧ ∀ c ∈ w, isLowerAlnum c

/-- Five characters of the alphabet that Kubernetes generates names from. -/
def PodSuffix (s : List Char) : Prop :=
  s.length = 5 ∧ ∀ c ∈ s, c ∈ "bcdfghjklmnpqrstvwxz2456789".toList

/-- `base[0]-base[1]-…-s`. -/
def podName (base : List (List Char)) (s : List Char) : List Char :=
  joined (base.map .word) ++ '-' :: s

/-- The segments of the base when the pod rule is applied. -/
def podItems (base : List (List Char)) : List Segment := (uuidScan base).map durationMark

/-- Whether the pod rule takes a suffix behind the base. -/
def suffixTaken (base : List (List Char)) : Bool := reaches (podItems base)

section Pods

variable {base : List (List Char)} (hbase : PodBase base)

include hbase

theorem PodBase.words_ok : ∀ w ∈ base, (Segment.word w).Ok :=
  fun w hw => ⟨(hbase.2 w hw).1, (hbase.2 w hw).2, by simp [Segment.isPlain]⟩

theorem PodBase.items_ok : ∀ s ∈ podItems base, s.Ok := by
  intro s hs
  obtain ⟨t, ht, rfl⟩ := List.mem_map.mp hs
  exact durationMark_ok (uuidScan_ok hbase.words_ok t ht)

theorem PodBase.scan_ne_nil : uuidScan base ≠ [] := by
  have hbecomes : Becomes "<uuid>".toList (fun _ => false) (matcher (fun _ => false) (rest uuidRule))
      (base.map .word) (uuidScan base) := uuid_of_name hbase.words_ok
  intro hscan
  have hnil : base = [] := List.map_eq_nil_iff.mp (hbecomes.empty.mpr hscan)
  exact absurd hbase.1 (by rw [hnil]; decide)

end Pods

theorem PodSuffix.lower {s : List Char} (hs : PodSuffix s) : ∀ c ∈ s, isLowerAlnum c := by
  have hall : ∀ c ∈ "bcdfghjklmnpqrstvwxz2456789".toList, isLowerAlnum c := by decide
  exact fun c hc => hall c (hs.2 c hc)

theorem PodSuffix.word_ok {s : List Char} (hs : PodSuffix s) : (Segment.word s).Ok where
  ne_nil := by
    show s ≠ []
    rintro rfl
    exact absurd hs.1 (by decide)
  lower := hs.lower
  letters := by simp [Segment.isPlain]

theorem PodSuffix.not_dash {s : List Char} (hs : PodSuffix s) : '-' ∉ s :=
  fun hdash => absurd (hs.lower '-' hdash) (by decide)

theorem scan_ok {base : List (List Char)} (hbase : PodBase base) {s : List Char}
    (hs : PodSuffix s) : ∀ t ∈ uuidScan base ++ [.word s], t.Ok := by
  intro t ht
  rcases List.mem_append.mp ht with ht | ht
  · exact uuidScan_ok hbase.words_ok t ht
  · rw [List.mem_singleton.mp ht]
    exact hs.word_ok

theorem joined_scan {base : List (List Char)} (hbase : PodBase base) (s : List Char) :
    joined (uuidScan base ++ [.word s]) = joined (uuidScan base) ++ '-' :: s := by
  rw [joined_append hbase.scan_ne_nil, dashed_cons, dashed_nil, List.append_nil]
  rfl

theorem substitute_uuid_of_podName {base : List (List Char)} (hbase : PodBase base) {s : List Char}
    (hs : PodSuffix s) :
    substitute alnum (uuidRule, "<uuid>") (podName base s) =
      joined (uuidScan base ++ [.word s]) := by
  rw [podName, joined_scan hbase]
  exact substitute_uuid_of_name hbase.words_ok hs.not_dash (by rw [hs.1]; decide)

/-- The rules read a pod name from segment to segment. -/
theorem replaced_podName {base : List (List Char)} (hbase : PodBase base) {s : List Char}
    (hs : PodSuffix s) :
    replaced alnum (podName base s) =
      finish alnum (joined (podScan (podItems base ++ [durationMark (.word s)]))) := by
  have hscanOk := scan_ok hbase hs
  have hitemsOk : ∀ t ∈ podItems base ++ [durationMark (.word s)], t.Ok := by
    intro t ht
    rcases List.mem_append.mp ht with ht | ht
    · exact hbase.items_ok t ht
    · rw [List.mem_singleton.mp ht]
      exact durationMark_ok hs.word_ok
  have huuid : substitute alnum (uuidRule, "<uuid>") (podName base s) =
      joined (uuidScan base ++ [.word s]) := substitute_uuid_of_podName hbase hs
  -- the timestamp, url and path rules need a character that a pod name lacks
  have hts : substitute alnum (tsRule, "<ts>") (joined (uuidScan base ++ [.word s])) =
      joined (uuidScan base ++ [.word s]) :=
    substitute_of_needs tsRule_needs (joined_lacks hscanOk (by decide))
  have hurl : substitute alnum (urlRule, "<url>") (joined (uuidScan base ++ [.word s])) =
      joined (uuidScan base ++ [.word s]) :=
    substitute_of_needs urlRule_needs (joined_lacks hscanOk (by decide))
  have hpath : substitute alnum (pathRule, "<path>") (joined (uuidScan base ++ [.word s])) =
      joined (uuidScan base ++ [.word s]) :=
    substitute_of_needs pathRule_needs (joined_lacks hscanOk (by decide))
  have hdur : substitute alnum (durRule, "<dur>") (joined (uuidScan base ++ [.word s])) =
      joined (podItems base ++ [durationMark (.word s)]) := by
    rw [substitute_duration_of_name hscanOk, List.map_append]
    rfl
  have hpod : substitute alnum (podRule, "<pod>")
      (joined (podItems base ++ [durationMark (.word s)])) =
      joined (podScan (podItems base ++ [durationMark (.word s)])) := (pod_of_name hitemsOk).text
  have hnode : substitute alnum (nodeRule, "<node>")
      (joined (podScan (podItems base ++ [durationMark (.word s)]))) =
      joined (podScan (podItems base ++ [durationMark (.word s)])) :=
    substitute_of_needs nodeRule_needs (joined_lacks (podScan_ok hitemsOk) (by decide))
  have hip : substitute alnum (ipRule, "<ip>")
      (joined (podScan (podItems base ++ [durationMark (.word s)]))) =
      joined (podScan (podItems base ++ [durationMark (.word s)])) :=
    substitute_of_needs ipRule_needs (joined_lacks (podScan_ok hitemsOk) (by decide))
  rw [replaced, rules]
  simp only [List.foldl_cons, List.foldl_nil]
  rw [huuid, hts, hurl, hpath, hdur, hpod, hnode, hip, finish]

theorem finish_joined_append {l : List Segment} (hl : l ≠ []) (s : Segment) :
    finish alnum (joined (l ++ [s])) = finish alnum (joined l) ++ '-' :: finish alnum s.text := by
  rw [joined_append hl, dashed_cons, dashed_nil, List.append_nil, finish_dash]

theorem finish_pod (alnum : Char → Bool) (kept : List Segment) :
    ∃ back : List Char,
      finish alnum (joined (kept ++ [.mark "pod".toList])) = back ++ "<pod>".toList := by
  have hmark : finish alnum (Segment.mark "pod".toList).text = "<pod>".toList :=
    finish_mark ⟨by decide, by decide, by decide⟩
  by_cases hkept : kept = []
  · refine ⟨[], ?_⟩
    rw [hkept, List.nil_append, joined, dashed_nil, List.append_nil, hmark, List.nil_append]
  · refine ⟨finish alnum (joined kept) ++ ['-'], ?_⟩
    rw [finish_joined_append hkept, hmark, List.append_assoc, List.singleton_append]

/-- What becomes of a pod name: a duration is taken for itself, another suffix goes with the words
    before it where the pod rule gets to it. -/
theorem replaced_podName_cases (alnum : Char → Bool) {base : List (List Char)} (hbase : PodBase base) :
    ∃ front back, ∀ s, PodSuffix s → replaced alnum (podName base s) =
      if IsDuration s then front ++ '-' :: "<dur>".toList
      else if suffixTaken base then back ++ "<pod>".toList
      else front ++ '-' :: if ∀ c ∈ s, isDigit c then "<n>".toList else s := by
  have hscan : podScan (podItems base) ≠ [] := by
    have hbecomes : Becomes "<pod>".toList alnum (matcher alnum (rest podRule)) (podItems base)
        (podScan (podItems base)) := pod_of_name hbase.items_ok
    exact mt hbecomes.empty.mpr (mt List.map_eq_nil_iff.mp hbase.scan_ne_nil)
  obtain ⟨back, hback⟩ : ∃ back, suffixTaken base → ∀ s, Final s →
      finish alnum (joined (podScan (podItems base ++ [s]))) = back ++ "<pod>".toList := by
    cases htaken : suffixTaken base with
    | false => exact ⟨[], fun h => absurd h (by simp)⟩
    | true =>
        obtain ⟨kept, hkept⟩ := podScan_of_reaches htaken
        obtain ⟨back, hback⟩ := finish_pod alnum kept
        exact ⟨back, fun _ s hs => by rw [hkept s hs, hback]⟩
  refine ⟨finish alnum (joined (podScan (podItems base))), back, fun s hs => ?_⟩
  rw [replaced_podName hbase hs, durationMark]
  split_ifs with hdur htaken hdigits
  -- a duration is marked before the pod rule can take it
  · have hfinal : ¬ Final (.mark "dur".toList) := fun h => absurd h.1 (by simp [Segment.isPlain])
    have hmark : finish alnum (Segment.mark "dur".toList).text = "<dur>".toList :=
      finish_mark ⟨by decide, by decide, by decide⟩
    rw [podScan_append fun h => hfinal h.2, finish_joined_append hscan, hmark]
  · exact hback htaken _ ⟨rfl, hs.1⟩
  · rw [podScan_append fun h => htaken h.1, finish_joined_append hscan]
    show _ ++ '-' :: finish alnum s = _
    rw [finish_word hs.1 hs.lower, if_pos hdigits]
  · rw [podScan_append fun h => htaken h.1, finish_joined_append hscan]
    show _ ++ '-' :: finish alnum s = _
    rw [finish_word hs.1 hs.lower, if_neg hdigits]

/-- Two suffixes behind one base that leave no trace of their difference. -/
def SuffixesMerge (base : List (List Char)) (s t : List Char) : Prop :=
  s = t ∨ (IsDuration s ∧ IsDuration t) ∨
    (¬ IsDuration s ∧ ¬ IsDuration t ∧
      (suffixTaken base = true ∨ ((∀ c ∈ s, isDigit c) ∧ ∀ c ∈ t, isDigit c)))

theorem PodSuffix.ne_placeholder {s : List Char} (hs : PodSuffix s) (name : List Char) :
    s ≠ '<' :: name := by
  rintro rfl
  exact absurd (hs.lower '<' List.mem_cons_self) (by decide)

theorem dur_ne_pod (a b : List Char) : a ++ "<dur>".toList ≠ b ++ "<pod>".toList := by
  have hdur : "<dur>".toList = ['<', 'd', 'u', 'r', '>'] := String.toList_ofList
  have hpod : "<pod>".toList = ['<', 'p', 'o', 'd', '>'] := String.toList_ofList
  rw [hdur, hpod]
  intro h
  exact absurd (List.append_inj_right' h rfl) (by decide)

theorem replaced_podName_eq_iff {base : List (List Char)} (hbase : PodBase base) {s t : List Char}
    (hs : PodSuffix s) (ht : PodSuffix t) :
    replaced alnum (podName base s) = replaced alnum (podName base t) ↔ SuffixesMerge base s t := by
  obtain ⟨front, back, hcases⟩ := replaced_podName_cases alnum hbase
  -- a duration and another suffix end differently
  have hends : ∀ u, PodSuffix u → front ++ '-' :: "<dur>".toList ≠
      if suffixTaken base then back ++ "<pod>".toList
      else front ++ '-' :: if ∀ c ∈ u, isDigit c then "<n>".toList else u := by
    intro u hu heq
    split_ifs at heq
    · rw [← List.singleton_append, ← List.append_assoc] at heq
      exact dur_ne_pod _ _ heq
    · have hend := List.append_cancel_left heq
      exact absurd hend (by decide)
    · have hend := (List.cons.inj (List.append_cancel_left heq)).2
      exact hu.ne_placeholder _ hend.symm
  rw [hcases s hs, hcases t ht]
  by_cases hds : IsDuration s <;> by_cases hdt : IsDuration t
  · rw [if_pos hds, if_pos hdt]
    exact iff_of_true rfl (Or.inr (Or.inl ⟨hds, hdt⟩))
  · rw [if_pos hds, if_neg hdt]
    refine iff_of_false (hends t ht) ?_
    rintro (rfl | ⟨-, h⟩ | ⟨h, -⟩)
    · exact hdt hds
    · exact hdt h
    · exact h hds
  · rw [if_neg hds, if_pos hdt]
    refine iff_of_false (hends s hs).symm ?_
    rintro (rfl | ⟨h, -⟩ | ⟨-, h, -⟩)
    · exact hds hdt
    · exact hds h
    · exact h hdt
  · rw [if_neg hds, if_neg hdt]
    have hother : SuffixesMerge base s t ↔
        s = t ∨ suffixTaken base = true ∨ ((∀ c ∈ s, isDigit c) ∧ ∀ c ∈ t, isDigit c) := by
      simp [SuffixesMerge, hds, hdt]
    rw [hother]
    by_cases htaken : suffixTaken base
    · rw [if_pos htaken, if_pos htaken]
      exact iff_of_true rfl (Or.inr (Or.inl htaken))
    · rw [if_neg htaken, if_neg htaken, List.append_cancel_left_eq, List.cons.injEq]
      by_cases hs' : ∀ c ∈ s, isDigit c <;> by_cases ht' : ∀ c ∈ t, isDigit c
      · rw [if_pos hs', if_pos ht']
        exact iff_of_true ⟨rfl, rfl⟩ (Or.inr (Or.inr ⟨hs', ht'⟩))
      · rw [if_pos hs', if_neg ht']
        refine iff_of_false (fun h => ht.ne_placeholder _ h.2.symm) ?_
        rintro (rfl | h | ⟨-, h⟩)
        · exact ht' hs'
        · exact htaken h
        · exact ht' h
      · rw [if_neg hs', if_pos ht']
        refine iff_of_false (fun h => hs.ne_placeholder _ h.2) ?_
        rintro (rfl | h | ⟨h, -⟩)
        · exact hs' ht'
        · exact htaken h
        · exact hs' h
      · rw [if_neg hs', if_neg ht']
        constructor
        · exact fun h => Or.inl h.2
        · rintro (h | h | ⟨h, -⟩)
          · exact ⟨rfl, h⟩
          · exact absurd h htaken
          · exact absurd h hs'

/-! ## Tokens of a message -/

/-- A small letter, a digit, a dash or a dot. -/
def Plain (c : Char) : Prop := isLowerAlnum c ∨ c = '-' ∨ c = '.'

theorem Plain.ascii {c : Char} (h : Plain c) : 32 < c.toNat ∧ c.toNat < 123 := by
  rcases h with h | rfl | rfl
  · have := range_toNat h
    omega
  · decide
  · decide

theorem Plain.visible {c : Char} (h : Plain c) : isSpace c = false := by
  have hcodes : ∀ z ∈ spaceCodes, z ≤ 32 ∨ 123 ≤ z := by decide
  have hascii := h.ascii
  rw [isSpace, ← Bool.not_eq_true, List.contains_iff_mem]
  intro hmem
  have := hcodes _ hmem
  omega

theorem Plain.toLower {c : Char} (h : Plain c) : c.toLower = c := by
  -- the second branch of `toLower`: no capital letter
  refine dif_neg ?_
  rintro ⟨ha, hz⟩
  have hupper : 65 ≤ c.toNat ∧ c.toNat ≤ 90 := ⟨ha, hz⟩
  rcases h with h | rfl | rfl
  · have := range_toNat h
    omega
  · exact absurd hupper (by decide)
  · exact absurd hupper (by decide)

theorem map_toLower_of_plain {x : List Char} (h : ∀ c ∈ x, Plain c) : x.map Char.toLower = x :=
  (List.map_congr_left fun c hc => (h c hc).toLower).trans (List.map_id x)

theorem lower_ofList {x : List Char} (h : ∀ c ∈ x, Plain c) :
    (String.ofList x).toList.map Char.toLower = x := by
  rw [String.toList_ofList, map_toLower_of_plain h]

theorem finish_of_tail {a w : List Char} (hlen : 3 ≤ w.length) (hdash : '-' ∉ w)
    (u : List Char) (d e : Char) : a ++ w ≠ u ++ ['-', d, e] := by
  intro h
  have hsuffix : ['-', d, e] <:+ a ++ w := h ▸ List.suffix_append u _
  have hin : ['-', d, e] <:+ w :=
    List.suffix_of_suffix_length_le hsuffix (List.suffix_append a w) hlen
  exact hdash (hin.subset List.mem_cons_self)

theorem guarded_of_tail {a w : List Char} (hcolon : ':' ∉ a ++ w) (hlen : 3 ≤ w.length)
    (hdash : '-' ∉ w) : Guarded (a ++ w) where
  start := by
    have hlong : 3 ≤ (a ++ w).length := by
      rw [List.length_append]
      omega
    match a ++ w, hlong, hcolon with
    | c :: d :: e :: v, _, hcolon => exact ⟨c, d, e, v, rfl, fun h => hcolon (by simp [h])⟩
  finish := finish_of_tail hlen hdash

theorem guarded_of_no_dash {x : List Char} (hcolon : ':' ∉ x) (hlen : 3 ≤ x.length)
    (hdash : '-' ∉ x) : Guarded x := guarded_of_tail (a := []) hcolon hlen hdash

/-- A token of plain characters, from what the UUID rule makes of it. -/
theorem token_of_plain {x : List Char} (hne : x ≠ []) (h : ∀ c ∈ x, Plain c)
    (hguarded : Guarded (substitute alnum (uuidRule, "<uuid>") x)) : Token alnum (String.ofList x) where
  ascii c hc := by
    rw [String.toList_ofList] at hc
    have := (h c hc).ascii
    omega
  visible := by
    rw [String.toList_ofList]
    obtain ⟨c, s, rfl⟩ := List.exists_cons_of_ne_nil hne
    exact ⟨c, List.mem_cons_self, (h c List.mem_cons_self).visible⟩
  guarded := by rwa [lower_ofList h]
  oneWord := by
    rw [lower_ofList h]
    exact foldl_substitute_visible (by decide) fun c hc => (h c hc).visible

theorem not_colon_of_plain {x : List Char} (h : ∀ c ∈ x, Plain c) : ':' ∉ x := by
  intro hcolon
  rcases h ':' hcolon with h | h | h <;> exact absurd h (by decide)

theorem token_of_no_dash {x : List Char} (h : ∀ c ∈ x, Plain c) (hlen : 3 ≤ x.length)
    (hdash : '-' ∉ x) : Token alnum (String.ofList x) := by
  have huuid : substitute alnum (uuidRule, "<uuid>") x = x :=
    substitute_of_needs uuidRule_needs fun c hc hc' => hdash (hc' ▸ hc)
  apply token_of_plain (List.ne_nil_of_length_pos (by omega)) h
  rw [huuid]
  exact guarded_of_no_dash (not_colon_of_plain h) hlen hdash

theorem IsNumber.plain {x : List Char} (h : IsNumber x) : ∀ c ∈ x, Plain c :=
  fun c hc => Or.inl (isLowerAlnum_of_isDigit (h.2 c hc))

theorem IsNumber.token {x : List Char} (h : IsNumber x) : Token alnum (String.ofList x) := by
  have hlen := h.1
  apply token_of_no_dash h.plain (by omega)
  exact fun hdash => absurd (h.2 '-' hdash) (by decide)

theorem IsAddress.plain {x : List Char} (h : IsAddress x) : ∀ c ∈ x, Plain c :=
  fun c hc => (h.chars c hc).imp isLowerAlnum_of_isDigit Or.inr

theorem IsAddress.token {x : List Char} (h : IsAddress x) : Token alnum (String.ofList x) := by
  have hlen : 3 ≤ x.length := by
    obtain ⟨a, b, c, d, -, -, -, -, rfl⟩ := h
    simp only [List.length_append, List.length_cons]
    omega
  apply token_of_no_dash h.plain hlen
  intro hdash
  rcases h.chars '-' hdash with h | h <;> exact absurd h (by decide)

theorem IsUuid.plain {x : List Char} (h : IsUuid x) : ∀ c ∈ x, Plain c := by
  obtain ⟨a, b, c, d, e, hgroups, rfl⟩ := h
  have hhex : ∀ {n w}, Run isHex n w → ∀ x ∈ w, Plain x :=
    fun hw x hx => Or.inl (isLowerAlnum_of_isHex (hw.2 x hx))
  have hdash : Plain '-' := Or.inr (Or.inl rfl)
  simp only [uuidText, List.append_nil, List.forall_mem_append, List.forall_mem_cons]
  exact ⟨hhex hgroups.first, hdash, hhex hgroups.second, hdash, hhex hgroups.third, hdash,
    hhex hgroups.fourth, hdash, hhex hgroups.fifth⟩

theorem IsUuid.token {x : List Char} (h : IsUuid x) : Token alnum (String.ofList x) := by
  have hne : x ≠ [] := by
    obtain ⟨a, b, c, d, e, -, rfl⟩ := h
    simp [uuidText]
  apply token_of_plain hne h.plain
  rw [substitute_uuid h]
  exact guarded_of_no_dash (by decide) (by decide) (by decide)

theorem podName_plain {base : List (List Char)} (hbase : PodBase base) {s : List Char}
    (hs : PodSuffix s) : ∀ c ∈ podName base s, Plain c := by
  intro c hc
  rcases List.mem_append.mp hc with hc | hc
  · rcases mem_joined hc with hdash | ⟨t, ht, hc⟩
    · exact Or.inr (Or.inl hdash)
    · obtain ⟨w, hw, rfl⟩ := List.mem_map.mp ht
      exact Or.inl ((hbase.2 w hw).2 c hc)
  · rcases List.mem_cons.mp hc with hdash | hc
    · exact Or.inr (Or.inl hdash)
    · exact Or.inl (hs.lower c hc)

theorem podName_token {base : List (List Char)} (hbase : PodBase base) {s : List Char}
    (hs : PodSuffix s) : Token alnum (String.ofList (podName base s)) := by
  apply token_of_plain (by simp [podName]) (podName_plain hbase hs)
  have hlacks := joined_lacks (scan_ok hbase hs) (show ':' ∈ [':', '/', '.'] by decide)
  rw [substitute_uuid_of_podName hbase hs]
  rw [joined_scan hbase, ← List.singleton_append, ← List.append_assoc] at hlacks ⊢
  apply guarded_of_tail (fun hcolon => hlacks ':' hcolon rfl) _ hs.not_dash
  rw [hs.1]
  decide

namespace Timestamp

theorem map_digits {n : Nat} {w : List Char} (h : Run isDigit n w) : w.map Char.toLower = w :=
  map_toLower_of_plain fun c hc => Or.inl (isLowerAlnum_of_isDigit (h.2 c hc))

theorem fraction_plain (t : Timestamp) : ∀ c ∈ t.fraction, Plain c := by
  intro c hc
  rcases t.fraction_digits with h | ⟨w, -, hw, h⟩
  · exact absurd (h ▸ hc) (by simp)
  · rcases List.mem_cons.mp (h ▸ hc) with hdot | hc
    · exact Or.inr (Or.inr hdot)
    · exact Or.inl (isLowerAlnum_of_isDigit (hw c hc))

theorem text_lower (t : Timestamp) : t.text.map Char.toLower = t.lower.text := by
  simp only [text, clockText, lower, List.map_append, List.map_cons, map_digits t.year_digits,
    map_digits t.month_digits, map_digits t.day_digits, map_digits t.hour_digits,
    map_digits t.minute_digits, map_digits t.second_digits, map_toLower_of_plain t.fraction_plain]
  rfl

theorem text_ascii (t : Timestamp) : ∀ c ∈ t.text, c.toNat < 128 := by
  have hdigits : ∀ {n w}, Run isDigit n w → ∀ c ∈ w, c.toNat < 128 := by
    intro n w hw c hc
    have := (show Plain c from Or.inl (isLowerAlnum_of_isDigit (hw.2 c hc))).ascii
    omega
  have hsep : t.sep.toNat < 128 := by
    have hsep := t.sep_mem
    simp only [List.mem_cons, List.not_mem_nil, or_false] at hsep
    rcases hsep with h | h | h <;> rw [h] <;> decide
  have hfraction : ∀ c ∈ t.fraction, c.toNat < 128 := by
    intro c hc
    have := (t.fraction_plain c hc).ascii
    omega
  have hzone : ∀ c ∈ t.zone, c.toNat < 128 := by
    have hzone := t.zone_mem
    simp only [List.mem_cons, List.not_mem_nil, or_false] at hzone
    rcases hzone with h | h | h | h <;> rw [h] <;> decide
  simp only [text, clockText, List.forall_mem_append, List.forall_mem_cons]
  exact ⟨hdigits t.year_digits, by decide, hdigits t.month_digits, by decide,
    hdigits t.day_digits, hsep, hdigits t.hour_digits, by decide, hdigits t.minute_digits,
    by decide, hdigits t.second_digits, hfraction, hzone⟩

theorem exists_year (t : Timestamp) :
    ∃ c d e f, t.year = [c, d, e, f] ∧ isDigit c ∧ isDigit e := by
  have hlen := t.year_digits.1
  have hdigits := t.year_digits.2
  match hyear : t.year, hlen with
  | [c, d, e, f], _ =>
      rw [hyear] at hdigits
      exact ⟨c, d, e, f, rfl, hdigits c (by simp), hdigits e (by simp)⟩

/-- The end of a timestamp has no dash. -/
theorem exists_tail {t : Timestamp} (h : t.Small) :
    ∃ a w, t.text = a ++ w ∧ 3 ≤ w.length ∧ '-' ∉ w := by
  have hzone := h.zone
  have hsecond : '-' ∉ t.second := fun hdash => absurd (t.second_digits.2 '-' hdash) (by decide)
  have hfraction : '-' ∉ t.fraction := by
    rcases t.fraction_digits with h | ⟨w, -, hw, h⟩
    · simp [h]
    · rw [h, List.mem_cons, not_or]
      exact ⟨by decide, fun hdash => absurd (hw '-' hdash) (by decide)⟩
  simp only [List.mem_cons, List.not_mem_nil, or_false] at hzone
  -- after a Z the last run of digits is the second, after an offset it is the offset
  rcases hzone with h | h | h
  · refine ⟨t.year ++ '-' :: (t.month ++ '-' :: (t.day ++ t.sep ::
      (t.hour ++ ':' :: (t.minute ++ [':'])))), t.second ++ (t.fraction ++ ['z']), ?_, ?_, ?_⟩
    · simp [text, clockText, h]
    · rw [List.length_append, List.length_append, t.second_digits.1, List.length_singleton]
      omega
    · simp [hsecond, hfraction]
  · refine ⟨t.year ++ '-' :: (t.month ++ '-' :: (t.day ++ t.sep ::
      (t.hour ++ ':' :: (t.minute ++ ':' :: (t.second ++ (t.fraction ++ ['+'])))))),
      ['0', '0', ':', '0', '0'], ?_, by decide, by decide⟩
    simp [text, clockText, h]
  · refine ⟨t.year ++ '-' :: (t.month ++ '-' :: (t.day ++ t.sep ::
      (t.hour ++ ':' :: (t.minute ++ ':' :: (t.second ++ (t.fraction ++ ['-'])))))),
      ['0', '0', ':', '0', '0'], ?_, by decide, by decide⟩
    simp [text, clockText, h]

/-- No clock time starts at a timestamp, and no date ends there. -/
theorem guarded {t : Timestamp} (h : t.Small) : Guarded t.text where
  start := by
    obtain ⟨c, d, e, f, hyear, -, he⟩ := t.exists_year
    refine ⟨c, d, e, _, by rw [text, hyear]; rfl, ?_⟩
    rintro rfl
    exact absurd he (by decide)
  finish := by
    obtain ⟨a, w, htext, hlen, hdash⟩ := exists_tail h
    rw [htext]
    exact finish_of_tail hlen hdash

theorem token (t : Timestamp) : Token alnum (String.ofList t.text) where
  ascii := by
    rw [String.toList_ofList]
    exact t.text_ascii
  visible := by
    obtain ⟨c, d, e, f, hyear, hc, -⟩ := t.exists_year
    rw [String.toList_ofList]
    refine ⟨c, ?_, (show Plain c from Or.inl (isLowerAlnum_of_isDigit hc)).visible⟩
    rw [text, hyear]
    exact List.mem_cons_self
  guarded := by
    rw [String.toList_ofList, text_lower, substitute_uuid_of_timestamp t.lower_small]
    exact guarded t.lower_small
  oneWord := by
    rw [String.toList_ofList, text_lower, replaced_timestamp t.lower_small]
    decide

end Timestamp

/-! ## Tokens of one class -/

/-- Two tokens of one class, in the classes of the documentation. -/
inductive TokenPair where
  | numbers (x y : List Char)
  | podNames (base : List (List Char)) (s t : List Char)
  | uuids (x y : List Char)
  | timestamps (x y : Timestamp)
  | addresses (x y : List Char)

namespace TokenPair

def first : TokenPair → String
  | numbers x _ => String.ofList x
  | podNames base s _ => String.ofList (podName base s)
  | uuids x _ => String.ofList x
  | timestamps x _ => String.ofList x.text
  | addresses x _ => String.ofList x

def second : TokenPair → String
  | numbers _ y => String.ofList y
  | podNames base _ t => String.ofList (podName base t)
  | uuids _ y => String.ofList y
  | timestamps _ y => String.ofList y.text
  | addresses _ y => String.ofList y

/-- Both are tokens of their class. -/
def Documented : TokenPair → Prop
  | numbers x y => IsNumber x ∧ IsNumber y
  | podNames base s t => PodBase base ∧ PodSuffix s ∧ PodSuffix t
  | uuids x y => IsUuid x ∧ IsUuid y
  | timestamps _ _ => True
  | addresses x y => IsAddress x ∧ IsAddress y

/-- The difference between the tokens leaves no trace: numbers are on one side of the length of a
    hash, and the suffixes of pod names merge. -/
def Merges : TokenPair → Prop
  | numbers x y => x.length < 7 ↔ y.length < 7
  | podNames base s t => SuffixesMerge base s t
  | _ => True

theorem tokens {pair : TokenPair} (h : pair.Documented) :
    Token alnum pair.first ∧ Token alnum pair.second := by
  cases pair with
  | numbers x y => exact ⟨h.1.token, h.2.token⟩
  | podNames base s t => exact ⟨podName_token h.1 h.2.1, podName_token h.1 h.2.2⟩
  | uuids x y => exact ⟨h.1.token, h.2.token⟩
  | timestamps x y => exact ⟨x.token, y.token⟩
  | addresses x y => exact ⟨h.1.token, h.2.token⟩

theorem number_text_eq_iff {p q : Prop} [Decidable p] [Decidable q] :
    (if p then "<n>".toList else "<hash>".toList) = (if q then "<n>".toList else "<hash>".toList) ↔
      (p ↔ q) := by
  by_cases hp : p <;> by_cases hq : q <;> simp [hp, hq]

/-- The rules make the same of both tokens exactly if these merge. -/
theorem replaced_eq_iff {pair : TokenPair} (h : pair.Documented) :
    replaced alnum (pair.first.toList.map Char.toLower) =
      replaced alnum (pair.second.toList.map Char.toLower) ↔ pair.Merges := by
  cases pair with
  | numbers x y =>
      rw [first, second, lower_ofList h.1.plain, lower_ofList h.2.plain, replaced_number h.1,
        replaced_number h.2]
      exact number_text_eq_iff
  | podNames base s t =>
      rw [first, second, lower_ofList (podName_plain h.1 h.2.1), lower_ofList (podName_plain h.1 h.2.2)]
      exact replaced_podName_eq_iff h.1 h.2.1 h.2.2
  | uuids x y =>
      rw [first, second, lower_ofList h.1.plain, lower_ofList h.2.plain, replaced_uuid h.1,
        replaced_uuid h.2]
      exact iff_of_true rfl trivial
  | timestamps x y =>
      rw [first, second, String.toList_ofList, String.toList_ofList, Timestamp.text_lower,
        Timestamp.text_lower, Timestamp.replaced_timestamp x.lower_small,
        Timestamp.replaced_timestamp y.lower_small]
      exact iff_of_true rfl trivial
  | addresses x y =>
      rw [first, second, lower_ofList h.1.plain, lower_ofList h.2.plain, replaced_address h.1,
        replaced_address h.2]
      exact iff_of_true rfl trivial

end TokenPair

/-! ## The fingerprint -/

/-- `re.sub` for the patterns that can be read. -/
def reSub (pattern replacement text : String) : String :=
  match parsePattern pattern with
  | some rule => String.ofList ((matcher (fun _ => false) rule).sub replacement.toList text.toList)
  | none => text

theorem reSub_of_parse {pattern : String} {rule : Pattern} (h : parsePattern pattern = some rule)
    (replacement text : String) :
    reSub pattern replacement text =
      String.ofList ((matcher (fun _ => false) rule).sub replacement.toList text.toList) := by
  rw [reSub, h]

/-- The reference platform with this `re.sub`. -/
def matching : Platform Reference.TaggedBytes := { Reference.platform with reSub := reSub }

theorem matching_reFaithful : ReFaithful matching fun _ => false where
  rules _ _ _ hrule replacement text := reSub_of_parse hrule replacement text
  blanks replacement text := reSub_of_parse parse_blanks replacement text

theorem matching_lowerFaithful : LowerFaithful matching where
  ascii _ _ := rfl
  space a b := by
    show String.ofList ((a ++ " " ++ b).toList.map Char.toLower) =
      String.ofList (a.toList.map Char.toLower) ++ " " ++ String.ofList (b.toList.map Char.toLower)
    apply String.toList_injective
    simp

/-- `rust-verify-7gk2m` and another name with its last five characters. -/
def rustVerify (suffix : String) : TokenPair :=
  .podNames ["rust".toList, "verify".toList] "7gk2m".toList suffix.toList

theorem rustVerify_documented (suffix : String) (h : PodSuffix suffix.toList) :
    (rustVerify suffix).Documented :=
  ⟨⟨by decide, by decide⟩, ⟨by decide, by decide⟩, h⟩

def longNumbers : TokenPair := .numbers "123456".toList "1234567".toList

/-- Two messages that differ in one token have one normalized text and fingerprint exactly if the
    tokens merge. -/
theorem normalizeFailure_same_class_iff {Bytes : Type} {py : Platform Bytes}
    (hre : ReFaithful py alnum) (hlower : LowerFaithful py) {P S : String} (hP : Before P)
    (hS : After S) {pair : TokenPair} (hpair : pair.Documented) :
    normalizeFailure py (.str (P ++ pair.first ++ S)) =
      normalizeFailure py (.str (P ++ pair.second ++ S)) ↔ pair.Merges := by
  obtain ⟨hx, hy⟩ : Token alnum pair.first ∧ Token alnum pair.second := TokenPair.tokens hpair
  rw [normalizeFailure_around_iff hre hlower hP hS hx hy, TokenPair.replaced_eq_iff hpair]

/-- One failure in two pods. -/
theorem normalizeFailure_same_class_iff_pods :
    normalizeFailure matching (.str ("Pod " ++ (rustVerify "9d4p2").first ++ " failed")) =
      normalizeFailure matching (.str ("Pod " ++ (rustVerify "9d4p2").second ++ " failed")) := by
  have hdocumented := rustVerify_documented "9d4p2" ⟨by decide, by decide⟩
  refine (normalizeFailure_same_class_iff matching_reFaithful matching_lowerFaithful
    (Or.inr ⟨"Pod", rfl⟩) (Or.inr ⟨"failed", rfl⟩) hdocumented).mpr ?_
  exact Or.inr (Or.inr ⟨by decide, by decide, Or.inl (reaches_of_near (by decide))⟩)

/-- A number of seven digits is told from one of six, and a pod by a suffix that is a duration. -/
theorem normalizeFailure_tells_apart :
    (longNumbers.Documented ∧
      normalizeFailure matching (.str ("exit code " ++ longNumbers.first ++ "")) ≠
        normalizeFailure matching (.str ("exit code " ++ longNumbers.second ++ ""))) ∧
    ((rustVerify "5m42s").Documented ∧
      normalizeFailure matching (.str ("Pod " ++ (rustVerify "5m42s").first ++ " failed")) ≠
        normalizeFailure matching (.str ("Pod " ++ (rustVerify "5m42s").second ++ " failed"))) := by
  have hapart : ∀ {pair : TokenPair} {P S : String}, Before P → After S → pair.Documented →
      ¬ pair.Merges → normalizeFailure matching (.str (P ++ pair.first ++ S)) ≠
        normalizeFailure matching (.str (P ++ pair.second ++ S)) := by
    intro pair P S hP hS hpair hmerges h
    obtain ⟨hx, hy⟩ := TokenPair.tokens hpair
    have hreplaced := (normalizeFailure_around_iff matching_reFaithful matching_lowerFaithful hP hS
      hx hy).mp h
    exact hmerges ((TokenPair.replaced_eq_iff hpair).mp hreplaced)
  have hnumbers : longNumbers.Documented := ⟨⟨by decide, by decide⟩, ⟨by decide, by decide⟩⟩
  have hpods := rustVerify_documented "5m42s" ⟨by decide, by decide⟩
  refine ⟨⟨hnumbers, ?_⟩, hpods, ?_⟩
  · exact hapart (Or.inr ⟨"exit code", rfl⟩) (Or.inl rfl) hnumbers
      (show ¬ ("123456".toList.length < 7 ↔ "1234567".toList.length < 7) by decide)
  · refine hapart (Or.inr ⟨"Pod", rfl⟩) (Or.inr ⟨"failed", rfl⟩) hpods ?_
    rintro (h | ⟨h, -⟩ | ⟨-, h, -⟩)
    · exact absurd h (by decide)
    · exact absurd h (by decide)
    · exact h (by decide)

end ArgoExporter.FailureTaxonomy
