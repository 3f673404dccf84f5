/-
  ArgoExporter.MetaSchema.Identity

  The timestamp of a generation and its id.  `strptime` alone reads timestamps
  of other widths and in lower case, and the pattern of the id alone accepts
  times that do not exist; with the id starting with the timestamp and a dash,
  the two together accept canonical texts of real seconds only
  (`identity_of_checks`).
-/

import ArgoExporter.MetaSchema
import ArgoExporter.Py.Isoformat

namespace ArgoExporter.MetaSchema

open ArgoExporter.Lib
open ArgoExporter.Py

/-! ## Patterns -/

theorem matchesClasses_append_iff (ps qs : List (Char → Bool)) (cs : List Char) :
    matchesClasses (ps ++ qs) cs = true ↔
      ∃ as bs, cs = as ++ bs ∧ matchesClasses ps as = true ∧ matchesClasses qs bs = true := by
  -- every class takes one character, so the split is where the first classes end
  induction ps generalizing cs with
  | nil =>
      constructor
      · exact fun h => ⟨[], cs, rfl, rfl, h⟩
      · rintro ⟨as, bs, rfl, hps, hqs⟩
        cases as with
        | nil => exact hqs
        | cons a as => exact absurd hps (by simp [matchesClasses])
  | cons p ps ih =>
      cases cs with
      | nil =>
          refine iff_of_false (by simp [matchesClasses]) ?_
          rintro ⟨as, bs, hcs, hps, -⟩
          obtain ⟨rfl, rfl⟩ := List.append_eq_nil_iff.mp hcs.symm
          exact absurd hps (by simp [matchesClasses])
      | cons c cs =>
          rw [List.cons_append, matchesClasses, Bool.and_eq_true, ih]
          constructor
          · rintro ⟨hc, as, bs, rfl, hps, hqs⟩
            refine ⟨c :: as, bs, rfl, ?_, hqs⟩
            rw [matchesClasses, hc, hps, Bool.true_and]
          · rintro ⟨as, bs, hcs, hps, hqs⟩
            cases as with
            | nil => exact absurd hps (by simp [matchesClasses])
            | cons a as =>
                rw [matchesClasses, Bool.and_eq_true] at hps
                obtain ⟨rfl, rfl⟩ := List.cons.inj hcs
                exact ⟨hps.1, as, bs, rfl, hps.2, hqs⟩

theorem matchesClasses_literal_iff (c : Char) (ps : List (Char → Bool)) (cs : List Char) :
    matchesClasses (literal c :: ps) cs = true ↔ ∃ bs, cs = c :: bs ∧ matchesClasses ps bs = true := by
  cases cs with
  | nil => simp [matchesClasses]
  | cons x cs =>
      rw [matchesClasses, Bool.and_eq_true, literal, decide_eq_true_eq]
      constructor
      · rintro ⟨rfl, h⟩
        exact ⟨cs, rfl, h⟩
      · rintro ⟨bs, heq, h⟩
        obtain ⟨rfl, rfl⟩ := List.cons.inj heq
        exact ⟨rfl, h⟩

theorem matchesClasses_replicate_iff (n : Nat) (p : Char → Bool) (cs : List Char) :
    matchesClasses (List.replicate n p) cs = true ↔ cs.length = n ∧ ∀ c ∈ cs, p c = true := by
  induction n generalizing cs with
  | zero =>
      cases cs with
      | nil => simp [matchesClasses]
      | cons c cs => simp [matchesClasses]
  | succ n ih =>
      cases cs with
      | nil => simp [matchesClasses, List.replicate_succ]
      | cons c cs =>
          rw [List.replicate_succ, matchesClasses, Bool.and_eq_true, ih, List.length_cons,
            Nat.add_right_cancel_iff, List.forall_mem_cons]
          exact and_left_comm

theorem matchesClasses_pad (w n : Nat) :
    matchesClasses (List.replicate w digitClass) (pad w n) = true := by
  refine (matchesClasses_replicate_iff _ _ _).mpr ⟨pad_length w n, fun c hc => ?_⟩
  obtain ⟨d, _, rfl⟩ := digitVal?_of_mem_pad hc
  rw [digitClass, decimal?_digit, Option.isSome_some]

/-- The characters of ASCII. -/
def IsAscii (text : String) : Prop := ∀ c ∈ text.toList, c.toNat < 128

/-- A field of the pattern and the separator after it, written. -/
theorem matchesClasses_field {ps : List (Char → Bool)} {bs : List Char}
    (h : matchesClasses ps bs = true) (w n : Nat) (c : Char) :
    matchesClasses (List.replicate w digitClass ++ literal c :: ps) (pad w n ++ c :: bs) = true :=
  (matchesClasses_append_iff _ _ _).mpr ⟨pad w n, c :: bs, rfl, matchesClasses_pad w n,
    (matchesClasses_literal_iff _ _ _).mpr ⟨bs, rfl, h⟩⟩

/-- A field of the pattern and the separator after it, read: in ASCII the digits are a padded
    numeral. -/
theorem field_of_matchesClasses {w : Nat} {c : Char} {ps : List (Char → Bool)} {cs : List Char}
    (hascii : ∀ x ∈ cs, x.toNat < 128)
    (h : matchesClasses (List.replicate w digitClass ++ literal c :: ps) cs = true) :
    ∃ n bs, n < 10 ^ w ∧ cs = pad w n ++ c :: bs ∧ (∀ x ∈ bs, x.toNat < 128) ∧
      matchesClasses ps bs = true := by
  obtain ⟨as, rest, rfl, hdigits, hrest⟩ := (matchesClasses_append_iff _ _ _).mp h
  obtain ⟨bs, rfl, hps⟩ := (matchesClasses_literal_iff _ _ _).mp hrest
  obtain ⟨rfl, hall⟩ := (matchesClasses_replicate_iff _ _ _).mp hdigits
  rw [List.forall_mem_append, List.forall_mem_cons] at hascii
  obtain ⟨n, hn, has⟩ :=
    exists_pad_of_digits fun c hc => eq_digit_of_decimal? (hascii.1 c hc) (hall c hc)
  exact ⟨n, bs, hn, by rw [← has], hascii.2.2, hps⟩

/-! ## The shape of an id -/

/-- `0` to `9` and `a` to `f`. -/
def IsLowerHex (c : Char) : Prop := ('0' ≤ c ∧ c ≤ '9') ∨ ('a' ≤ c ∧ c ≤ 'f')

theorem hexClass_iff (c : Char) : hexClass c = true ↔ IsLowerHex c := by
  simp only [hexClass, Bool.or_eq_true, Bool.and_eq_true, decide_eq_true_eq]
  exact Iff.rfl

/-- The random part of a generation id. -/
structure IsSuffix (hex : List Char) : Prop where
  length_eq : hex.length = 12
  hex : ∀ c ∈ hex, IsLowerHex c

theorem matchesClasses_suffix_iff (cs : List Char) :
    matchesClasses (List.replicate 12 hexClass) cs = true ↔ IsSuffix cs := by
  rw [matchesClasses_replicate_iff]
  simp only [hexClass_iff]
  exact ⟨fun h => ⟨h.1, h.2⟩, fun h => ⟨h.1, h.2⟩⟩

theorem generationIdPattern_classes : generationIdPattern.classes =
    List.replicate 4 digitClass ++ literal '-' :: (List.replicate 2 digitClass ++
      literal '-' :: (List.replicate 2 digitClass ++ literal 'T' :: (List.replicate 2 digitClass ++
      literal ':' :: (List.replicate 2 digitClass ++ literal ':' :: (List.replicate 2 digitClass ++
      literal 'Z' :: literal '-' :: List.replicate 12 hexClass))))) := rfl

theorem fullmatch_fullWidth (year month day hour minute second : Nat) {hex : List Char}
    (hhex : IsSuffix hex) {id : String}
    (hid : id.toList = fullWidth year month day hour minute second ++ '-' :: hex) :
    generationIdPattern.fullmatch id = true := by
  have hsuffix : matchesClasses (literal '-' :: List.replicate 12 hexClass) ('-' :: hex) = true :=
    (matchesClasses_literal_iff _ _ _).mpr ⟨hex, rfl, (matchesClasses_suffix_iff hex).mpr hhex⟩
  rw [Pattern.fullmatch, generationIdPattern_classes, hid, fullWidth]
  simp only [List.append_assoc, List.cons_append, List.nil_append]
  exact matchesClasses_field (matchesClasses_field (matchesClasses_field (matchesClasses_field
    (matchesClasses_field (matchesClasses_field hsuffix 2 _ _) 2 _ _) 2 _ _) 2 _ _) 2 _ _) 4 _ _

/-- In ASCII the pattern matches full-width fields, a dash and a suffix only. -/
theorem fullWidth_of_fullmatch {id : String} (hascii : IsAscii id)
    (h : generationIdPattern.fullmatch id = true) :
    ∃ year month day hour minute second hex, (year < 10000 ∧ month < 100 ∧ day < 100) ∧
      (hour < 100 ∧ minute < 100 ∧ second < 100) ∧ IsSuffix hex ∧
      id.toList = fullWidth year month day hour minute second ++ '-' :: hex := by
  rw [Pattern.fullmatch, generationIdPattern_classes] at h
  -- six fields, each with the separator after it
  obtain ⟨year, r1, hyear, hid, hascii, h⟩ := field_of_matchesClasses hascii h
  obtain ⟨month, r2, hmonth, rfl, hascii, h⟩ := field_of_matchesClasses hascii h
  obtain ⟨day, r3, hday, rfl, hascii, h⟩ := field_of_matchesClasses hascii h
  obtain ⟨hour, r4, hhour, rfl, hascii, h⟩ := field_of_matchesClasses hascii h
  obtain ⟨minute, r5, hminute, rfl, hascii, h⟩ := field_of_matchesClasses hascii h
  obtain ⟨second, r6, hsecond, rfl, hascii, h⟩ := field_of_matchesClasses hascii h
  obtain ⟨hex, rfl, hhex⟩ := (matchesClasses_literal_iff _ _ _).mp h
  refine ⟨year, month, day, hour, minute, second, hex, ⟨hyear, hmonth, hday⟩,
    ⟨hhour, hminute, hsecond⟩, (matchesClasses_suffix_iff hex).mp hhex, ?_⟩
  rw [hid, fullWidth]
  simp only [List.append_assoc, List.cons_append, List.nil_append]

/-! ## Timestamp and id together -/

/-- `YYYY-MM-DDTHH:MM:SSZ` of a real UTC time. -/
def IsUtcSecond (text : String) : Prop := ∃ t : Naive, t.microsecond = 0 ∧ text = isoformatZ t

theorem not_mem_pad {c : Char} (hc : c.toNat < 48 ∨ 57 < c.toNat) (w n : Nat) : c ∉ pad w n := by
  intro hmem
  obtain ⟨d, _, hd⟩ := digitVal?_of_mem_pad hmem
  exact digit_ne hc d hd.symm

/-- Full-width fields end in their only `Z`. -/
theorem fullWidth_eq_append (year month day hour minute second : Nat) :
    ∃ fields, fullWidth year month day hour minute second = fields ++ ['Z'] ∧
      ∀ c, c = 'Z' ∨ c = 'z' → c ∉ fields := by
  refine ⟨pad 4 year ++ '-' :: (pad 2 month ++ '-' :: (pad 2 day ++ 'T' :: (pad 2 hour ++
    ':' :: (pad 2 minute ++ ':' :: pad 2 second)))), ?_, ?_⟩
  · rw [fullWidth]
    simp only [List.append_assoc, List.cons_append]
  · intro c hc
    have hpad (w n : Nat) : c ∉ pad w n := by
      apply not_mem_pad
      rcases hc with rfl | rfl <;> decide
    have hsep : c ≠ '-' ∧ c ≠ 'T' ∧ c ≠ ':' := by
      rcases hc with rfl | rfl <;> decide
    simp [hpad, hsep]

theorem IsSuffix.zulu_not_mem {hex : List Char} (hhex : IsSuffix hex) {c : Char}
    (hc : c = 'Z' ∨ c = 'z') : c ∉ '-' :: hex := by
  intro hmem
  rcases List.mem_cons.mp hmem with rfl | hmem
  · exact absurd hc (by decide)
  · have hlower := hhex.hex c hmem
    rcases hc with rfl | rfl
    · exact absurd hlower (by unfold IsLowerHex; decide)
    · exact absurd hlower (by unfold IsLowerHex; decide)

/-- A text that `strptime` reads and that an id of full-width fields continues with a dash is the
    whole timestamp of the id. -/
theorem eq_fullWidth_of_prefix {generatedAt id : String} {n : Naive}
    (hread : strptime generatedAt = some n) {year month day hour minute second : Nat}
    {hex : List Char} (hhex : IsSuffix hex)
    (hid : id.toList = fullWidth year month day hour minute second ++ '-' :: hex)
    (hstarts : (generatedAt ++ "-").toList <+: id.toList) :
    generatedAt.toList = fullWidth year month day hour minute second := by
  obtain ⟨f, hfields, -⟩ := Option.bind_eq_some_iff.mp hread
  obtain ⟨l, c, hc, hgeneratedAt⟩ := ends_in_zulu_of_stampFields hfields
  obtain ⟨fields, hfullWidth, hclean⟩ := fullWidth_eq_append year month day hour minute second
  obtain ⟨rest, hrest⟩ := hstarts
  -- the last character read is a `Z` of the id, and the id has one
  have hdash : ("-" : String).toList = ['-'] := rfl
  have heq : fields ++ 'Z' :: ('-' :: hex) = l ++ c :: ('-' :: rest) := by
    rw [hid, hfullWidth, String.toList_append, hgeneratedAt, hdash] at hrest
    simpa only [List.append_assoc, List.cons_append, List.nil_append] using hrest.symm
  obtain ⟨rfl, rfl, -⟩ := (List.append_cons_inj_of_notMem (hclean c hc) (hhex.zulu_not_mem hc)).mp heq
  rw [hgeneratedAt, hfullWidth]

theorem toList_extended (text : String) (hex : List Char) :
    (text ++ "-" ++ String.ofList hex).toList = text.toList ++ '-' :: hex := by
  have hdash : ("-" : String).toList = ['-'] := rfl
  rw [String.toList_append, String.toList_append, hdash, String.toList_ofList, List.append_assoc,
    List.singleton_append]

theorem prefix_extended (text : String) (hex : List Char) :
    (text ++ "-").toList <+: (text ++ "-" ++ String.ofList hex).toList := by
  have happend := @String.toList_append (text ++ "-") (String.ofList hex)
  rw [happend]
  exact List.prefix_append _ _

/-- The checks on the two fields pass on a real second and an id that extends it. -/
theorem checks_of_identity {text : String} (htext : IsUtcSecond text) {hex : List Char}
    (hhex : IsSuffix hex) :
    strptime text ≠ none ∧
      generationIdPattern.fullmatch (text ++ "-" ++ String.ofList hex) = true ∧
      (text ++ "-").toList <+: (text ++ "-" ++ String.ofList hex).toList := by
  obtain ⟨t, hwhole, rfl⟩ := htext
  refine ⟨by simp [strptime_isoformatZ_whole hwhole], ?_, prefix_extended _ hex⟩
  refine fullmatch_fullWidth t.date.year t.date.month t.date.day t.hour t.minute t.second hhex ?_
  rw [toList_extended, toList_isoformatZ_whole hwhole]

/-- In ASCII they pass on nothing else. -/
theorem identity_of_checks {generatedAt generationId : String} (hascii : IsAscii generationId)
    (hread : strptime generatedAt ≠ none)
    (hpattern : generationIdPattern.fullmatch generationId = true)
    (hstarts : (generatedAt ++ "-").toList <+: generationId.toList) :
    IsUtcSecond generatedAt ∧
      ∃ hex, IsSuffix hex ∧ generationId = generatedAt ++ "-" ++ String.ofList hex := by
  obtain ⟨n, hn⟩ := Option.ne_none_iff_exists'.mp hread
  obtain ⟨year, month, day, hour, minute, second, hex, ⟨hyear, hmonth, hday⟩,
    ⟨hhour, hminute, hsecond⟩, hhex, hid⟩ := fullWidth_of_fullmatch hascii hpattern
  have htext := eq_fullWidth_of_prefix hn hhex hid hstarts
  refine ⟨⟨n, eq_isoformatZ_of_strptime hyear hmonth hday hhour hminute hsecond htext hn⟩,
    hex, hhex, String.toList_inj.mp ?_⟩
  rw [hid, toList_extended, htext]

end ArgoExporter.MetaSchema
