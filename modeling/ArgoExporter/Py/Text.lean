/-
  ArgoExporter.Py.Text

  The string built-ins the exporter calls: `str.strip`, `str.strip(chars)`,
  `str.replace` and `int(text)`, with Python's notions of white space and of
  decimal digit (both cover Unicode, not only ASCII).  A `str` is a sequence of
  Unicode scalar values.
-/

import ArgoExporter.Lib.FixedWidth
import Mathlib.Data.List.DropRight

namespace ArgoExporter.Py

open ArgoExporter.Lib

/-! ## White space -/

/-- Code points for which `str.isspace` holds. -/
def spaceCodes : List Nat :=
  [0x9, 0xa, 0xb, 0xc, 0xd, 0x1c, 0x1d, 0x1e, 0x1f, 0x20, 0x85, 0xa0, 0x1680, 0x2000, 0x2001,
   0x2002, 0x2003, 0x2004, 0x2005, 0x2006, 0x2007, 0x2008, 0x2009, 0x200a, 0x2028, 0x2029,
   0x202f, 0x205f, 0x3000]

def isSpace (c : Char) : Bool := spaceCodes.contains c.toNat

/-- Remove the characters satisfying `p` from both ends. -/
def stripBy (p : Char → Bool) (cs : List Char) : List Char := (cs.dropWhile p).rdropWhile p

/-- `text.strip()`. -/
def strip (text : String) : String := String.ofList (stripBy isSpace text.toList)

/-- `text.strip(c)` for a single character. -/
def stripChar (c : Char) (text : String) : String :=
  String.ofList (stripBy (fun x => x = c) text.toList)

section Strip

variable {p : Char → Bool} {cs : List Char}

/-- Neither end of a text is a character satisfying `p`. -/
structure Bare (p : Char → Bool) (cs : List Char) : Prop where
  head : ∀ c, cs.head? = some c → p c = false
  last : ∀ c, cs.getLast? = some c → p c = false

theorem Bare.reverse (h : Bare p cs) : Bare p cs.reverse where
  head c hc := h.last c (by rwa [List.head?_reverse] at hc)
  last c hc := h.head c (by rwa [List.getLast?_reverse] at hc)

theorem bare_stripBy (p : Char → Bool) (cs : List Char) : Bare p (stripBy p cs) := by
  unfold stripBy
  constructor
  · intro c hc
    -- what is left begins as the text without its front
    have hprefix := List.rdropWhile_prefix p (cs.dropWhile p)
    have hne : (cs.dropWhile p).rdropWhile p ≠ [] := by
      intro hnil
      rw [hnil] at hc
      exact absurd hc (by simp)
    have hhead : (cs.dropWhile p).head? = some c := by
      obtain ⟨back, hback⟩ := hprefix
      rw [← hback, List.head?_append_of_ne_nil _ hne, hc]
    have hnot := List.head?_dropWhile_not p cs
    rw [hhead] at hnot
    simpa using hnot
  · intro c hc
    have hne : (cs.dropWhile p).rdropWhile p ≠ [] := by
      intro hnil
      rw [hnil] at hc
      exact absurd hc (by simp)
    have hnot := List.rdropWhile_last_not p (cs.dropWhile p) hne
    rw [List.getLast?_eq_some_getLast hne, Option.some.injEq] at hc
    rw [hc] at hnot
    simpa using hnot

/-- What `strip` removes. -/
theorem exists_eq_append_stripBy (p : Char → Bool) (cs : List Char) :
    ∃ front back, cs = front ++ stripBy p cs ++ back ∧ (∀ c ∈ front, p c = true) ∧
      ∀ c ∈ back, p c = true := by
  refine ⟨cs.takeWhile p, (cs.dropWhile p).rtakeWhile p, ?_, fun c => List.mem_takeWhile_imp,
    fun c => List.mem_rtakeWhile_imp⟩
  rw [stripBy, List.append_assoc, List.rdropWhile_append_rtakeWhile,
    List.takeWhile_append_dropWhile]

/-- Only one text is left when characters satisfying `p` go from both ends. -/
theorem stripBy_append {front core back : List Char} (hfront : ∀ c ∈ front, p c = true)
    (hcore : Bare p core) (hback : ∀ c ∈ back, p c = true) :
    stripBy p (front ++ core ++ back) = core := by
  unfold stripBy
  rw [List.append_assoc, List.dropWhile_append_of_pos hfront]
  cases core with
  | nil =>
      rw [List.nil_append, List.dropWhile_eq_nil_iff.mpr hback, List.rdropWhile_nil]
  | cons x rest =>
      have hx : ¬ p x = true := by simpa using hcore.head x rfl
      have hback' : ∀ c ∈ back.reverse, p c = true := fun c hc => hback c (List.mem_reverse.mp hc)
      rw [List.cons_append, List.dropWhile_cons_of_neg hx, ← List.cons_append, List.rdropWhile,
        List.reverse_append, List.dropWhile_append_of_pos hback']
      -- the last character of the core stops the removal from behind
      obtain ⟨y, rest', hrev⟩ := List.exists_cons_of_ne_nil
        (List.reverse_ne_nil_iff.mpr (List.cons_ne_nil x rest))
      have hy : ¬ p y = true := by
        have := hcore.last y (by rw [← List.head?_reverse, hrev]; rfl)
        simpa using this
      rw [hrev, List.dropWhile_cons_of_neg hy, ← hrev, List.reverse_reverse]

theorem stripBy_eq_self_iff : stripBy p cs = cs ↔ Bare p cs := by
  constructor
  · intro h
    rw [← h]
    exact bare_stripBy p cs
  · intro h
    have hnone : ∀ c ∈ ([] : List Char), p c = true := by simp
    simpa using stripBy_append hnone h hnone

theorem stripBy_reverse (p : Char → Bool) (cs : List Char) :
    stripBy p cs.reverse = (stripBy p cs).reverse := by
  obtain ⟨front, back, hsplit, hfront, hback⟩ := exists_eq_append_stripBy p cs
  calc stripBy p cs.reverse
      = stripBy p (back.reverse ++ (stripBy p cs).reverse ++ front.reverse) := by
        rw [List.append_assoc, ← List.reverse_append, ← List.reverse_append, ← hsplit]
    _ = (stripBy p cs).reverse :=
        stripBy_append (fun c hc => hback c (List.mem_reverse.mp hc)) (bare_stripBy p cs).reverse
          (fun c hc => hfront c (List.mem_reverse.mp hc))

theorem stripBy_sublist (p : Char → Bool) (cs : List Char) : (stripBy p cs).Sublist cs :=
  (List.rdropWhile_prefix p _).sublist.trans (List.dropWhile_sublist p)

end Strip

/-- `text.replace("Z", "+00:00")`. -/
def replaceZulu (text : String) : String :=
  String.ofList (text.toList.flatMap fun c => if c = 'Z' then "+00:00".toList else [c])

/-! ## Decimal digits -/

/-- Code points of the decimal zeros of Unicode (general category `Nd`). -/
def decimalZeros : List Nat :=
  [0x30, 0x660, 0x6f0, 0x7c0, 0x966, 0x9e6, 0xa66, 0xae6, 0xb66, 0xbe6, 0xc66, 0xce6, 0xd66,
   0xde6, 0xe50, 0xed0, 0xf20, 0x1040, 0x1090, 0x17e0, 0x1810, 0x1946, 0x19d0, 0x1a80, 0x1a90,
   0x1b50, 0x1bb0, 0x1c40, 0x1c50, 0xa620, 0xa8d0, 0xa900, 0xa9d0, 0xa9f0, 0xaa50, 0xabf0,
   0xff10, 0x104a0, 0x10d30, 0x11066, 0x110f0, 0x11136, 0x111d0, 0x112f0, 0x11450, 0x114d0,
   0x11650, 0x116c0, 0x11730, 0x118e0, 0x11950, 0x11c50, 0x11d50, 0x11da0, 0x11f50, 0x16a60,
   0x16ac0, 0x16b50, 0x1d7ce, 0x1d7d8, 0x1d7e2, 0x1d7ec, 0x1d7f6, 0x1e140, 0x1e2f0, 0x1e4f0,
   0x1e950, 0x1fbf0]

/-- Value of a character that the regular expression `\d` matches. -/
def decimal? (c : Char) : Option Nat :=
  decimalZeros.findSome? fun z =>
    if z ≤ c.toNat ∧ c.toNat < z + 10 then some (c.toNat - z) else none

theorem decimal?_of_digitVal? {c : Char} {n : Nat} (h : digitVal? c = some n) :
    decimal? c = some n := by
  unfold digitVal? at h
  split at h
  · rename_i hc
    rw [decimal?, decimalZeros, List.findSome?_cons, if_pos (by omega)]
    exact h
  · exact absurd h (by simp)

@[simp] theorem decimal?_digit (n : Nat) : decimal? (digit n) = some (n % 10) :=
  decimal?_of_digitVal? (digitVal?_digit n)

/-- Below the code points of other scripts, the decimal digits are those of ASCII. -/
theorem eq_digit_of_decimal? {c : Char} (hascii : c.toNat < 128) (h : (decimal? c).isSome) :
    ∃ d, c = digit d := by
  obtain ⟨d, hd⟩ := Option.isSome_iff_exists.mp h
  obtain ⟨z, hz, hrange⟩ := List.exists_of_findSome?_eq_some hd
  split_ifs at hrange with hin
  have hzero : ∀ z ∈ decimalZeros, z < 128 → z = 48 := by decide
  obtain rfl := hzero z hz (by omega)
  refine ⟨c.toNat - 48, Char.toNat_inj.mp ?_⟩
  rw [digit_toNat]
  omega

/-! ## `int(text)` -/

/-- Digits with single underscores between them; the flag says that a digit came just before. -/
def underscoredDigits : Bool → List Char → Option (List Nat)
  | afterDigit, [] => if afterDigit then some [] else none
  | afterDigit, c :: cs =>
      if c = '_' then
        if afterDigit then underscoredDigits false cs else none
      else do
        let d ← decimal? c
        let ds ← underscoredDigits true cs
        return d :: ds

/-- Largest number of digits `int` converts. -/
def maxStrDigits : Nat := 4300

/-- Value of an unsigned numeral. -/
def natOfDigits? (cs : List Char) : Option Nat := do
  let ds ← underscoredDigits false cs
  if ds.length ≤ maxStrDigits then return ds.foldl (fun n d => 10 * n + d) 0 else none

/-- `int(text)`, with `none` for the `ValueError`. -/
def int? (text : String) : Option Int :=
  match stripBy isSpace text.toList with
  | '-' :: cs => (natOfDigits? cs).map fun n => -(n : Int)
  | '+' :: cs => (natOfDigits? cs).map Int.ofNat
  | cs => (natOfDigits? cs).map Int.ofNat

example : int? " 1_000 " = some 1000 := by decide

end ArgoExporter.Py
