/-
  ArgoExporter.Consumer.Keys

  The keys the exporter writes and the keys a consumer reads when both are
  given the same prefix.  The exporter normalizes it twice, at configuration
  load and in `object_key`, the consumer once.
-/

import ArgoExporter.Config.Accepted
import ArgoExporter.Consumer

namespace ArgoExporter.Consumer

open ArgoExporter.Py
open ArgoExporter.S3io
open ArgoExporter.Config (Environ normalizeS3Prefix)

/-! ## Normalization of characters -/

def isSlash (c : Char) : Bool := c = '/'

/-- `normalize_s3_prefix` on the characters of a prefix. -/
def normalized (cs : List Char) : List Char := stripBy isSlash (stripBy isSpace cs)

theorem toList_normalizeS3Prefix (pfx : String) :
    (normalizeS3Prefix pfx).toList = normalized pfx.toList := by
  rw [normalizeS3Prefix, stripChar, strip, String.toList_ofList, String.toList_ofList]
  rfl

theorem normalized_reverse (cs : List Char) : normalized cs.reverse = (normalized cs).reverse := by
  rw [normalized, stripBy_reverse, stripBy_reverse, normalized]

/-- Normalizing once more changes nothing exactly when no white space was left at an end. -/
theorem normalized_normalized_iff (cs : List Char) :
    normalized (normalized cs) = normalized cs ↔ Bare isSpace (normalized cs) := by
  rw [← stripBy_eq_self_iff]
  constructor
  · intro h
    have hslash := stripBy_sublist isSlash (stripBy isSpace (normalized cs))
    have hspace := stripBy_sublist isSpace (normalized cs)
    change (normalized (normalized cs)).Sublist _ at hslash
    rw [h] at hslash
    exact hspace.antisymm hslash
  · intro h
    have hslash : Bare isSlash (normalized cs) := bare_stripBy isSlash _
    rw [normalized, h, stripBy_eq_self_iff.mpr hslash]

/-! ## Where white space is left -/

/-- White space apart, the text opens with slashes that white space follows, and is not over there. -/
def SlashThenBlank (cs : List Char) : Prop :=
  ∃ blanks slashes x rest, cs = blanks ++ slashes ++ x :: rest ∧
    (∀ c ∈ blanks, isSpace c = true) ∧ slashes ≠ [] ∧ (∀ c ∈ slashes, isSlash c = true) ∧
    isSpace x = true ∧ ∃ c ∈ rest, isSpace c = false

theorem isSlash_of_isSpace {c : Char} (h : isSpace c = true) : isSlash c = false := by
  unfold isSlash
  rw [decide_eq_false_iff_not]
  rintro rfl
  exact absurd h (by decide)

/-- The slashes in front go, and what follows them stays. -/
theorem head?_stripBy_slashes {slashes rest : List Char} {x : Char}
    (hslashes : ∀ c ∈ slashes, isSlash c = true) (hx : isSlash x = false) :
    (stripBy isSlash (slashes ++ x :: rest)).head? = some x := by
  have hx' : ¬ isSlash x = true := by simp [hx]
  rw [stripBy, List.dropWhile_append_of_pos hslashes, List.dropWhile_cons_of_neg hx']
  obtain ⟨back, hback⟩ := List.rdropWhile_prefix isSlash (x :: rest)
  cases hleft : (x :: rest).rdropWhile isSlash with
  | nil => exact absurd (List.rdropWhile_eq_nil_iff.mp hleft x List.mem_cons_self) hx'
  | cons y left =>
      rw [hleft, List.cons_append] at hback
      rw [List.head?_cons, (List.cons.inj hback).1]

/-- `strip` keeps the slashes, the white space behind them and what is behind that. -/
theorem stripBy_slashThenBlank {blanks slashes rest : List Char} {x : Char}
    (hblanks : ∀ c ∈ blanks, isSpace c = true) (hne : slashes ≠ [])
    (hslashes : ∀ c ∈ slashes, isSlash c = true) (hvisible : ∃ c ∈ rest, isSpace c = false) :
    stripBy isSpace (blanks ++ slashes ++ x :: rest) =
      slashes ++ x :: rest.rdropWhile isSpace := by
  have hkept : rest.rdropWhile isSpace ≠ [] := by
    obtain ⟨c, hc, hcv⟩ := hvisible
    rw [Ne, List.rdropWhile_eq_nil_iff]
    intro hall
    exact absurd (hall c hc) (by simp [hcv])
  have hcore : Bare isSpace (slashes ++ x :: rest.rdropWhile isSpace) := by
    constructor
    · intro y hy
      rw [List.head?_append_of_ne_nil _ hne] at hy
      have hslash := hslashes y (List.mem_of_mem_head? hy)
      by_contra hspace
      rw [isSlash_of_isSpace (by simpa using hspace)] at hslash
      exact Bool.false_ne_true hslash
    · intro y hy
      rw [List.getLast?_append_cons, List.getLast?_cons_of_ne_nil hkept,
        List.getLast?_eq_some_getLast hkept, Option.some.injEq] at hy
      have hlast := List.rdropWhile_last_not isSpace rest hkept
      rw [hy] at hlast
      simpa using hlast
  have hback : ∀ c ∈ rest.rtakeWhile isSpace, isSpace c = true := fun c =>
    List.mem_rtakeWhile_imp
  have hstrip := stripBy_append hblanks hcore hback
  rwa [List.append_assoc, List.append_assoc, List.cons_append,
    List.rdropWhile_append_rtakeWhile, ← List.append_assoc] at hstrip

/-- The normalized text begins with white space exactly in that case. -/
theorem slashThenBlank_iff (cs : List Char) :
    SlashThenBlank cs ↔ ∃ x, (normalized cs).head? = some x ∧ isSpace x = true := by
  constructor
  · rintro ⟨blanks, slashes, x, rest, rfl, hblanks, hne, hslashes, hx, hvisible⟩
    refine ⟨x, ?_, hx⟩
    rw [normalized, stripBy_slashThenBlank hblanks hne hslashes hvisible]
    exact head?_stripBy_slashes hslashes (isSlash_of_isSpace hx)
  · rintro ⟨x, hx, hspace⟩
    obtain ⟨blanks, back, hsplit, hblanks, _⟩ := exists_eq_append_stripBy isSpace cs
    obtain ⟨slashes, back', hsplit', hslashes, _⟩ :=
      exists_eq_append_stripBy isSlash (stripBy isSpace cs)
    have hbare := bare_stripBy isSpace cs
    obtain ⟨left, hleft⟩ : ∃ left, normalized cs = x :: left :=
      List.head?_eq_some_iff.mp hx
    change stripBy isSpace cs = slashes ++ normalized cs ++ back' at hsplit'
    rw [hleft, List.append_assoc, List.cons_append] at hsplit'
    rw [hsplit'] at hsplit hbare
    refine ⟨blanks, slashes, x, left ++ back' ++ back, by rw [hsplit]; simp, hblanks, ?_,
      hslashes, hspace, ?_⟩
    -- a stripped text does not begin with white space, and does not end with it
    · rintro rfl
      exact absurd hspace (by simp [hbare.head x rfl])
    · rcases List.eq_nil_or_concat (left ++ back') with hnil | ⟨init, last, hlast⟩
      · rw [hnil] at hbare
        exact absurd hspace (by simp [hbare.last x (by simp)])
      · rw [hlast, List.concat_eq_append] at hbare ⊢
        exact ⟨last, by simp, hbare.last last (by simp [List.getLast?_cons])⟩

/-- No white space is left at an end of the normalized text except in that case, read from the front
    or from behind. -/
theorem bare_normalized_iff (cs : List Char) :
    Bare isSpace (normalized cs) ↔ ¬ SlashThenBlank cs ∧ ¬ SlashThenBlank cs.reverse := by
  rw [slashThenBlank_iff, slashThenBlank_iff, normalized_reverse, List.head?_reverse]
  constructor
  · intro h
    constructor
    · rintro ⟨x, hx, hspace⟩
      exact absurd hspace (by simp [h.head x hx])
    · rintro ⟨x, hx, hspace⟩
      exact absurd hspace (by simp [h.last x hx])
  · rintro ⟨hhead, hlast⟩
    constructor
    · intro x hx
      by_contra hspace
      exact hhead ⟨x, hx, by simpa using hspace⟩
    · intro x hx
      by_contra hspace
      exact hlast ⟨x, hx, by simpa using hspace⟩

/-! ## Keys -/

/-- The prefix of a key has no slash and no white space at its ends. -/
def BoundarySafe (pfx : String) : Prop := Bare (fun c => isSlash c || isSpace c) pfx.toList

/-- White space inside the slashes at an end of a prefix. -/
def BlankInsideSlashes (pfx : String) : Prop :=
  SlashThenBlank pfx.toList ∨ SlashThenBlank pfx.toList.reverse

theorem boundarySafe_normalizeS3Prefix (pfx : String) :
    BoundarySafe (normalizeS3Prefix pfx) ↔ Bare isSpace (normalized pfx.toList) := by
  have hslash : Bare isSlash (normalized pfx.toList) := bare_stripBy isSlash _
  rw [BoundarySafe, toList_normalizeS3Prefix]
  constructor
  · intro h
    exact ⟨fun c hc => (Bool.or_eq_false_iff.mp (h.head c hc)).2,
      fun c hc => (Bool.or_eq_false_iff.mp (h.last c hc)).2⟩
  · intro h
    exact ⟨fun c hc => Bool.or_eq_false_iff.mpr ⟨hslash.head c hc, h.head c hc⟩,
      fun c hc => Bool.or_eq_false_iff.mpr ⟨hslash.last c hc, h.last c hc⟩⟩

/-- The keys of an exporter whose environment sets the prefix. -/
theorem exporterKey_of_load {Bytes : Type} {py : Platform Bytes} {environ : Environ}
    {versionFile : String → Except Exc String} {cfg : Config} {pfx : String}
    (h : Config.load py environ versionFile = .ok cfg) (hpfx : environ "DEST_S3_PREFIX" = some pfx)
    (name : String) : objectKey cfg.destPrefix name = objectKey (normalizeS3Prefix pfx) name := by
  rw [(Config.loadedFrom_of_load h).destPrefix, hpfx, Option.getD_some]

/-- The exporter, which normalizes the prefix when it loads it, and a consumer address one key, the
    canonical form is one, and it is safe at its ends, exactly when the prefix has no white space
    inside its outer slashes. -/
theorem sameKeys_iff (pfx name : String) :
    (objectKey (normalizeS3Prefix pfx) name = key pfx name ↔ ¬ BlankInsideSlashes pfx) ∧
    (normalizeS3Prefix (normalizeS3Prefix pfx) = normalizeS3Prefix pfx ↔
      ¬ BlankInsideSlashes pfx) ∧
    (BoundarySafe (normalizeS3Prefix pfx) ↔ ¬ BlankInsideSlashes pfx) := by
  have hbare : Bare isSpace (normalized pfx.toList) ↔ ¬ BlankInsideSlashes pfx := by
    rw [bare_normalized_iff, BlankInsideSlashes, not_or]
  have hidempotent : normalizeS3Prefix (normalizeS3Prefix pfx) = normalizeS3Prefix pfx ↔
      ¬ BlankInsideSlashes pfx := by
    rw [← String.toList_inj, toList_normalizeS3Prefix, toList_normalizeS3Prefix,
      normalized_normalized_iff, hbare]
  refine ⟨?_, hidempotent, ?_⟩
  · rw [key, objectKey_eq_iff, hidempotent]
  · rw [boundarySafe_normalizeS3Prefix, hbare]

/-- With `"/ a"` the exporter writes under `a` and a consumer reads under `" a"`. -/
theorem differentKeys_blankPrefix :
    objectKey (normalizeS3Prefix "/ a") "meta.json" ≠ key "/ a" "meta.json" ∧
      normalizeS3Prefix (normalizeS3Prefix "/ a") ≠ normalizeS3Prefix "/ a" ∧
      ¬ BoundarySafe (normalizeS3Prefix "/ a") := by
  have honce : normalizeS3Prefix "/ a" = " a" := by decide
  have htwice : normalizeS3Prefix " a" = "a" := by decide
  have hne : normalizeS3Prefix (normalizeS3Prefix "/ a") ≠ normalizeS3Prefix "/ a" := by
    rw [honce, htwice]
    decide
  refine ⟨fun h => hne ((objectKey_eq_iff _ _ _).mp h), hne, fun h => ?_⟩
  rw [honce] at h
  exact absurd (h.head ' ' rfl) (by decide)

end ArgoExporter.Consumer
