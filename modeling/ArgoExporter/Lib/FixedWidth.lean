/-
  ArgoExporter.Lib.FixedWidth

  Zero-padded decimal numerals of a fixed width, and the order of texts made
  of fixed-width fields: comparing such texts character by character compares
  the fields one after another.
-/

import Mathlib.Data.List.Lex
import Mathlib.Data.Char
import Mathlib.Tactic.IntervalCases
import Mathlib.Tactic.Tauto

namespace ArgoExporter.Lib

/-! ## Digits -/

/-- The ASCII digit of `n % 10`. -/
def digit (n : Nat) : Char := Char.ofNat (48 + n % 10)

/-- Value of an ASCII digit. -/
def digitVal? (c : Char) : Option Nat :=
  if 48 ≤ c.toNat ∧ c.toNat ≤ 57 then some (c.toNat - 48) else none

theorem digit_toNat (n : Nat) : (digit n).toNat = 48 + n % 10 := by
  have h : n % 10 < 10 := Nat.mod_lt _ (by decide)
  unfold digit
  generalize n % 10 = k at *
  interval_cases k <;> decide

@[simp] theorem digitVal?_digit (n : Nat) : digitVal? (digit n) = some (n % 10) := by
  have h : n % 10 < 10 := Nat.mod_lt _ (by decide)
  rw [digitVal?, digit_toNat, if_pos (by omega), Nat.add_sub_cancel_left]

theorem digit_lt_digit (n m : Nat) : digit n < digit m ↔ n % 10 < m % 10 := by
  rw [show digit n < digit m ↔ (digit n).toNat < (digit m).toNat from Iff.rfl,
    digit_toNat, digit_toNat]
  omega

theorem digit_inj {n m : Nat} (h : digit n = digit m) : n % 10 = m % 10 := by
  have := congrArg Char.toNat h
  rw [digit_toNat, digit_toNat] at this
  omega

/-! ## Padded numerals -/

/-- The last `w` decimal digits of `n`, most significant first. -/
def pad : Nat → Nat → List Char
  | 0, _ => []
  | w + 1, n => digit (n / 10 ^ w) :: pad w n

/-- Number read from a list of ASCII digits. -/
def ofDigits? : List Char → Option Nat
  | [] => some 0
  | c :: cs => do
      let d ← digitVal? c
      let n ← ofDigits? cs
      return d * 10 ^ cs.length + n

@[simp] theorem pad_length (w n : Nat) : (pad w n).length = w := by
  induction w with
  | zero => rfl
  | succ w ih => rw [pad, List.length_cons, ih]

/-- The leading digit of a numeral that fits its width. -/
theorem lead_lt_ten {w n : Nat} (hn : n < 10 ^ (w + 1)) : n / 10 ^ w < 10 := by
  rw [Nat.div_lt_iff_lt_mul (Nat.pow_pos (by decide))]
  rwa [pow_succ, Nat.mul_comm] at hn

theorem pad_mod (w n : Nat) : pad w (n % 10 ^ w) = pad w n := by
  suffices h : ∀ k, w ≤ k → pad w (n % 10 ^ k) = pad w n from h w (Nat.le_refl w)
  induction w with
  | zero => intro k _; rfl
  | succ w ih =>
      intro k hk
      rw [pad, pad, ih k (by omega)]
      congr 1
      obtain ⟨j, rfl⟩ : ∃ j, k = w + (j + 1) := ⟨k - w - 1, by omega⟩
      rw [pow_add, Nat.mod_mul_right_div_self]
      unfold digit
      rw [Nat.mod_mod_of_dvd _ (Dvd.intro_left (10 ^ j) (pow_succ 10 j).symm)]

/-- A padded numeral, split after its first `w` digits. -/
theorem pad_add (w v n : Nat) : pad (w + v) n = pad w (n / 10 ^ v) ++ pad v n := by
  induction w with
  | zero => rw [Nat.zero_add, pad, List.nil_append]
  | succ w ih =>
      rw [Nat.add_right_comm, pad, pad, ih, List.cons_append, Nat.div_div_eq_div_mul, ← pow_add,
        Nat.add_comm v w]

/-- Leading zeros and the rest of a padded numeral. -/
theorem pad_succ_of_lt {w n : Nat} (h : n < 10 ^ w) : pad (w + 1) n = '0' :: pad w n := by
  rw [pad, Nat.div_eq_of_lt h]
  rfl

/-- Every character of a padded numeral is an ASCII digit. -/
theorem digitVal?_of_mem_pad {w n : Nat} {c : Char} (h : c ∈ pad w n) :
    ∃ d, d < 10 ∧ c = digit d := by
  induction w with
  | zero => exact absurd h List.not_mem_nil
  | succ w ih =>
      rcases List.mem_cons.mp h with rfl | h
      · exact ⟨n / 10 ^ w % 10, Nat.mod_lt _ (by decide), by unfold digit; rw [Nat.mod_mod]⟩
      · exact ih h

/-- A text of digits is a padded numeral. -/
theorem exists_pad_of_digits {cs : List Char} (h : ∀ c ∈ cs, ∃ d, c = digit d) :
    ∃ n, n < 10 ^ cs.length ∧ cs = pad cs.length n := by
  induction cs with
  | nil => exact ⟨0, Nat.one_pos, rfl⟩
  | cons c cs ih =>
      rw [List.forall_mem_cons] at h
      obtain ⟨d, rfl⟩ := h.1
      obtain ⟨n, hn, hcs⟩ := ih h.2
      have hpos : 0 < 10 ^ cs.length := Nat.pow_pos (by decide)
      have hlead : (d % 10 * 10 ^ cs.length + n) / 10 ^ cs.length = d % 10 := by
        rw [Nat.add_comm, Nat.add_mul_div_right _ _ hpos, Nat.div_eq_of_lt hn, Nat.zero_add]
      refine ⟨d % 10 * 10 ^ cs.length + n, ?_, ?_⟩
      · have hd : d % 10 * 10 ^ cs.length ≤ 9 * 10 ^ cs.length :=
          Nat.mul_le_mul_right _ (Nat.le_of_lt_succ (Nat.mod_lt d (by decide)))
        rw [List.length_cons, pow_succ]
        omega
      · rw [List.length_cons, pad, hlead, ← pad_mod cs.length (d % 10 * 10 ^ cs.length + n),
          Nat.add_comm, Nat.add_mul_mod_self_right, Nat.mod_eq_of_lt hn, ← hcs]
        unfold digit
        rw [Nat.mod_mod]

theorem ofDigits?_pad {w n : Nat} (hn : n < 10 ^ w) : ofDigits? (pad w n) = some n := by
  induction w generalizing n with
  | zero =>
      have : n = 0 := by simpa using hn
      rw [this]
      rfl
  | succ w ih =>
      have hpos : 0 < 10 ^ w := Nat.pow_pos (by decide)
      have hq := lead_lt_ten hn
      have hr : ofDigits? (pad w n) = some (n % 10 ^ w) := by
        rw [← pad_mod]
        exact ih (Nat.mod_lt _ hpos)
      rw [pad, ofDigits?, digitVal?_digit, hr]
      simp only [pad_length, Option.bind_eq_bind, Option.bind_some, Option.pure_def,
        Nat.mod_eq_of_lt hq]
      rw [Nat.mul_comm, Nat.div_add_mod]

theorem pad_inj {w n m : Nat} (hn : n < 10 ^ w) (hm : m < 10 ^ w) (h : pad w n = pad w m) :
    n = m := by
  have h' := ofDigits?_pad hn
  rw [h, ofDigits?_pad hm] at h'
  exact (Option.some.inj h').symm

/-! ## Order of fixed-width texts -/

section Lex

variable {α : Type*} [LinearOrder α]

/-- Texts that start with fields of one width are ordered by that field first. -/
theorem append_lt_append_iff {a b : List α} (hab : a.length = b.length) (s t : List α) :
    a ++ s < b ++ t ↔ a < b ∨ a = b ∧ s < t := by
  induction a generalizing b with
  | nil =>
      obtain rfl : b = [] := List.length_eq_zero_iff.mp hab.symm
      simp
  | cons x xs ih =>
      cases b with
      | nil => exact absurd hab (by simp)
      | cons y ys =>
          have hlen : xs.length = ys.length := by simpa using hab
          simp only [List.cons_append, List.cons_lt_cons_iff, ih hlen, List.cons.injEq]
          tauto

end Lex

/-- Numbers compare by quotient first, then by remainder. -/
theorem lt_iff_div_mod_lt (n m p : Nat) :
    n < m ↔ n / p < m / p ∨ n / p = m / p ∧ n % p < m % p := by
  have h1 := Nat.div_add_mod n p
  have h2 := Nat.div_add_mod m p
  constructor
  · intro h
    rcases Nat.lt_or_eq_of_le (Nat.div_le_div_right (c := p) (Nat.le_of_lt h)) with hlt | heq
    · exact Or.inl hlt
    · refine Or.inr ⟨heq, ?_⟩
      rw [heq] at h1
      omega
  · rintro (h | ⟨heq, h⟩)
    · by_contra hle
      exact absurd (Nat.div_le_div_right (c := p) (Nat.le_of_not_lt hle)) (by omega)
    · rw [heq] at h1
      omega

theorem pad_lt_pad {w n m : Nat} (hn : n < 10 ^ w) (hm : m < 10 ^ w) :
    pad w n < pad w m ↔ n < m := by
  induction w generalizing n m with
  | zero =>
      have h1 : n = 0 := by simpa using hn
      have h2 : m = 0 := by simpa using hm
      simp [h1, h2, pad]
  | succ w ih =>
      have hpos : 0 < 10 ^ w := Nat.pow_pos (by decide)
      have hqn := lead_lt_ten hn
      have hqm := lead_lt_ten hm
      -- the leading digits decide, and the rest does when they are equal
      have hrest : pad w n < pad w m ↔ n % 10 ^ w < m % 10 ^ w := by
        rw [← pad_mod w n, ← pad_mod w m]
        exact ih (Nat.mod_lt _ hpos) (Nat.mod_lt _ hpos)
      have hdig : digit (n / 10 ^ w) = digit (m / 10 ^ w) ↔ n / 10 ^ w = m / 10 ^ w := by
        refine ⟨fun h => ?_, fun h => by rw [h]⟩
        have := digit_inj h
        rwa [Nat.mod_eq_of_lt hqn, Nat.mod_eq_of_lt hqm] at this
      rw [pad, pad, List.cons_lt_cons_iff, digit_lt_digit, hdig, hrest, Nat.mod_eq_of_lt hqn,
        Nat.mod_eq_of_lt hqm]
      exact (lt_iff_div_mod_lt n m (10 ^ w)).symm

end ArgoExporter.Lib
