/-
  ArgoExporter.Lib.Binary64

  Rounding of rationals to double precision: to the nearest multiple of the
  unit in the last place, ties to even, with gradual underflow and without a
  bound on the exponent.  `round_intCast` says which integers are doubles,
  `abs_round_sub_le` how far a value moves, `round_lt_intCast` that a value
  clearly below an integer stays below it, and `round_lt_zpow_iff` which values
  stay below a power of two.
-/

import Mathlib.Algebra.Order.Floor.Ring
import Mathlib.Data.Int.Log
import Mathlib.Data.Rat.Floor
import Mathlib.Tactic.FieldSimp
import Mathlib.Tactic.Linarith
import Mathlib.Tactic.NormNum
import Mathlib.Tactic.Positivity

namespace ArgoExporter.Lib.Binary64

/-- Nearest integer, the even one of two. -/
def roundHalfEven (x : ℚ) : ℤ :=
  if x - ⌊x⌋ < 1 / 2 then ⌊x⌋
  else if 1 / 2 < x - ⌊x⌋ then ⌊x⌋ + 1
  else if ⌊x⌋ % 2 = 0 then ⌊x⌋
  else ⌊x⌋ + 1

/-- Exponent of the unit in the last place of `q`. -/
def ulpExponent (q : ℚ) : ℤ := max (-1074) (Int.log 2 |q| - 52)

/-- The double nearest to `q`, if the exponent range is large enough. -/
def round (q : ℚ) : ℚ := roundHalfEven (q / 2 ^ ulpExponent q) * 2 ^ ulpExponent q

@[simp] theorem roundHalfEven_intCast (n : ℤ) : roundHalfEven n = n := by
  unfold roundHalfEven
  rw [Int.floor_intCast, sub_self, if_pos (by norm_num)]

theorem roundHalfEven_lt {x : ℚ} {n : ℤ} (h : x < n - 1 / 2) : roundHalfEven x < n := by
  have hfloor := Int.floor_le x
  have hcast : (⌊x⌋ : ℚ) < n := by linarith
  have hlt : ⌊x⌋ < n := by exact_mod_cast hcast
  have hup : 1 / 2 ≤ x - ⌊x⌋ → ⌊x⌋ + 1 < n := by
    intro hhalf
    have : ((⌊x⌋ + 1 : ℤ) : ℚ) < n := by
      push_cast
      linarith
    exact_mod_cast this
  unfold roundHalfEven
  split_ifs with h1 h2 h3
  · exact hlt
  · exact hup (le_of_lt h2)
  · exact hlt
  · exact hup (not_lt.mp h1)

theorem le_roundHalfEven {x : ℚ} {n : ℤ} (h : n ≤ x) : n ≤ roundHalfEven x := by
  have hfloor : n ≤ ⌊x⌋ := Int.le_floor.mpr h
  unfold roundHalfEven
  split_ifs <;> omega

theorem ulpExponent_le {q : ℚ} {k : ℤ} (hk : -52 ≤ k) (hq : |q| < 2 ^ (k + 53)) :
    ulpExponent q ≤ k := by
  unfold ulpExponent
  rcases eq_or_ne q 0 with rfl | hne
  · rw [abs_zero, Int.log_zero_right]
    omega
  · have hpos : 0 < |q| := abs_pos.mpr hne
    have hlog : Int.log 2 |q| < k + 53 := by
      rw [← Int.lt_zpow_iff_log_lt (by norm_num) hpos]
      exact_mod_cast hq
    omega

theorem abs_roundHalfEven_sub_le (x : ℚ) : |roundHalfEven x - x| ≤ 1 := by
  have hlow := Int.floor_le x
  have hhigh := Int.lt_floor_add_one x
  unfold roundHalfEven
  split_ifs <;> push_cast <;> rw [abs_le] <;> constructor <;> linarith

/-- A value of up to 53 bits moves by one at most. -/
theorem abs_round_sub_le {q : ℚ} (h : |q| < 2 ^ 53) : |round q - q| ≤ 1 := by
  have hexp : ulpExponent q ≤ 0 := by
    apply ulpExponent_le (by norm_num)
    rw [zero_add]
    exact_mod_cast h
  have hpos : (0 : ℚ) < 2 ^ ulpExponent q := zpow_pos (by norm_num) _
  have hone : (2 : ℚ) ^ ulpExponent q ≤ 1 := zpow_le_one_of_nonpos₀ (by norm_num) hexp
  have hscaled := abs_roundHalfEven_sub_le (q / 2 ^ ulpExponent q)
  calc |round q - q|
      = |roundHalfEven (q / 2 ^ ulpExponent q) - q / 2 ^ ulpExponent q| * 2 ^ ulpExponent q := by
        rw [← abs_of_pos hpos, ← abs_mul, abs_of_pos hpos, sub_mul, div_mul_cancel₀ _ hpos.ne']
        rfl
    _ ≤ 1 * 1 := mul_le_mul hscaled hone hpos.le zero_le_one
    _ = 1 := one_mul 1

theorem round_nonneg {q : ℚ} (h : 0 ≤ q) : 0 ≤ round q := by
  have hpow : (0 : ℚ) ≤ 2 ^ ulpExponent q := zpow_nonneg (by norm_num) _
  have hround : 0 ≤ roundHalfEven (q / 2 ^ ulpExponent q) :=
    le_roundHalfEven (by exact_mod_cast div_nonneg h hpow)
  exact mul_nonneg (by exact_mod_cast hround) hpow

/-- Integers of up to 53 bits are doubles. -/
theorem round_intCast {n : ℤ} (h : |n| < 2 ^ 53) : round n = n := by
  have hexp : ulpExponent (n : ℚ) ≤ 0 := by
    apply ulpExponent_le (by norm_num)
    rw [zero_add]
    exact_mod_cast h
  obtain ⟨k, hk⟩ := Int.le.dest hexp
  have hpow : (n : ℚ) / 2 ^ ulpExponent (n : ℚ) = ((n * 2 ^ k : ℤ) : ℚ) := by
    have he : ulpExponent (n : ℚ) = -(k : ℤ) := by omega
    rw [he, zpow_neg, div_inv_eq_mul, zpow_natCast]
    push_cast
    rfl
  have hne : (2 : ℚ) ^ ulpExponent (n : ℚ) ≠ 0 := zpow_ne_zero _ (by norm_num)
  rw [round, hpow, roundHalfEven_intCast, ← hpow, div_mul_cancel₀ _ hne]

/-- A value at least a microsecond below an integer of up to 34 bits rounds below it. -/
theorem round_lt_intCast {q : ℚ} {n : ℤ} (h0 : 0 ≤ q) (hq : q ≤ n - 1 / 1000000)
    (hn : n ≤ 2 ^ 34) : round q < n := by
  -- below 2 ^ 34 the spacing is at most 2 ^ -19, so half a spacing is less than the gap
  have hexp : ulpExponent q ≤ -19 := by
    apply ulpExponent_le (by norm_num)
    rw [abs_of_nonneg h0]
    have hn' : (n : ℚ) ≤ 2 ^ 34 := by exact_mod_cast hn
    have h34 : (2 : ℚ) ^ (-19 + 53 : ℤ) = 2 ^ 34 := by norm_num
    rw [h34]
    linarith
  obtain ⟨k, hk⟩ := Int.le.dest hexp
  have he : ulpExponent q = -((k + 19 : ℕ) : ℤ) := by
    push_cast
    omega
  have hpow : (2 : ℚ) ^ ulpExponent q = ((2 : ℚ) ^ (k + 19))⁻¹ := by
    rw [he, zpow_neg, zpow_natCast]
  have hbig : (2 : ℚ) ^ 19 ≤ 2 ^ (k + 19) := pow_le_pow_right₀ (by norm_num) (by omega)
  have hpos : (0 : ℚ) < 2 ^ (k + 19) := by positivity
  have hscaled : roundHalfEven (q / 2 ^ ulpExponent q) < n * 2 ^ (k + 19) := by
    have hlt : q / 2 ^ ulpExponent q < ((n * 2 ^ (k + 19) : ℤ) : ℚ) - 1 / 2 := by
      rw [hpow, div_inv_eq_mul]
      push_cast
      nlinarith
    exact roundHalfEven_lt hlt
  have hscaled' : (roundHalfEven (q / 2 ^ ulpExponent q) : ℚ) < n * 2 ^ (k + 19) := by
    exact_mod_cast hscaled
  rw [round, hpow] at *
  rw [mul_inv_lt_iff₀ hpos]
  exact hscaled'

/-- The unit in the last place of a positive value that is not subnormal. -/
theorem ulpExponent_of_pos {q : ℚ} (hq : 0 < q) (hlog : -1022 ≤ Int.log 2 q) :
    ulpExponent q = Int.log 2 q - 52 := by
  rw [ulpExponent, abs_of_pos hq]
  omega

/-- A value does not round below its leading power of two. -/
theorem zpow_log_le_round {q : ℚ} (hq : 0 < q) (hlog : -1022 ≤ Int.log 2 q) :
    (2 : ℚ) ^ Int.log 2 q ≤ round q := by
  have hexp := ulpExponent_of_pos hq hlog
  have hpos : (0 : ℚ) < 2 ^ ulpExponent q := zpow_pos (by norm_num) _
  have hsplit : (2 : ℚ) ^ Int.log 2 q = 2 ^ 52 * 2 ^ ulpExponent q := by
    rw [show Int.log 2 q = 52 + ulpExponent q by omega, zpow_add₀ (by norm_num)]
    norm_num
  have hscaled : ((2 ^ 52 : ℤ) : ℚ) ≤ q / 2 ^ ulpExponent q := by
    have hself := Int.zpow_log_le_self (b := 2) (by norm_num) hq
    rw [le_div_iff₀ hpos]
    push_cast at hself ⊢
    rwa [hsplit] at hself
  have hround : (2 ^ 52 : ℚ) ≤ roundHalfEven (q / 2 ^ ulpExponent q) := by
    exact_mod_cast le_roundHalfEven hscaled
  rw [hsplit, round]
  exact mul_le_mul_of_nonneg_right hround hpos.le

/-- A value from an integer of up to 53 bits on does not round below it. -/
theorem intCast_le_round {q : ℚ} {n : ℤ} (h0 : 0 ≤ n) (hn : n ≤ 2 ^ 53) (h : n ≤ q) :
    n ≤ round q := by
  have hpos : (0 : ℚ) < 2 ^ ulpExponent q := zpow_pos (by norm_num) _
  have hq : 0 ≤ q := le_trans (by exact_mod_cast h0) h
  -- with a spacing of at most one every integer is representable
  rcases le_or_gt (ulpExponent q) 0 with hexp | hexp
  · obtain ⟨k, hk⟩ := Int.le.dest hexp
    have hpow : (2 : ℚ) ^ ulpExponent q = ((2 : ℚ) ^ k)⁻¹ := by
      rw [show ulpExponent q = -(k : ℤ) by omega, zpow_neg, zpow_natCast]
    have hk0 : (0 : ℚ) < 2 ^ k := by positivity
    have hscaled : n * 2 ^ k ≤ roundHalfEven (q / 2 ^ ulpExponent q) := by
      apply le_roundHalfEven
      rw [hpow, div_inv_eq_mul]
      push_cast
      exact mul_le_mul_of_nonneg_right h (le_of_lt hk0)
    have hscaled' : (n : ℚ) * 2 ^ k ≤ roundHalfEven (q / 2 ^ ulpExponent q) := by
      exact_mod_cast hscaled
    rw [round, hpow] at *
    rwa [le_mul_inv_iff₀ hk0]
  -- with a larger spacing the value has a power of two of 53 bits or more below it
  · have hlog : 53 ≤ Int.log 2 q := by
      rw [ulpExponent, abs_of_nonneg hq] at hexp
      omega
    have hq0 : q ≠ 0 := by
      rintro rfl
      rw [Int.log_zero_right] at hlog
      omega
    have hn' : (n : ℚ) ≤ 2 ^ 53 := by exact_mod_cast hn
    calc (n : ℚ) ≤ 2 ^ (53 : ℤ) := by exact_mod_cast hn'
      _ ≤ 2 ^ Int.log 2 q := zpow_le_zpow_right₀ (by norm_num) hlog
      _ ≤ round q := zpow_log_le_round (lt_of_le_of_ne hq (Ne.symm hq0)) (by omega)

/-- Half a unit below an odd integer's successor is rounded up to it. -/
theorem roundHalfEven_of_odd {x : ℚ} {n : ℤ} (hodd : n % 2 = 1) (hlow : n + 1 / 2 ≤ x)
    (hhigh : x < n + 1) : roundHalfEven x = n + 1 := by
  have hfloor : ⌊x⌋ = n := by
    rw [Int.floor_eq_iff]
    exact ⟨by linarith, hhigh⟩
  unfold roundHalfEven
  rw [hfloor]
  split_ifs with hlt hgt heven
  · linarith
  · rfl
  · omega
  · rfl

/-- Rounding stays below a power of two exactly up to half a unit in the last place below it. -/
theorem round_lt_zpow_iff {q : ℚ} {k : ℤ} (hk : -52 ≤ k) (hq : 0 ≤ q) :
    round q < 2 ^ (k + 53) ↔ q < 2 ^ (k + 53) - 2 ^ (k - 1) := by
  have hk0 : (0 : ℚ) < 2 ^ k := zpow_pos (by norm_num) _
  have htop : (2 : ℚ) ^ (k + 53) = 2 ^ 53 * 2 ^ k := by
    rw [zpow_add₀ (by norm_num)]
    norm_num
    ring
  have hhalf : (2 : ℚ) ^ (k - 1) = 1 / 2 * 2 ^ k := by
    rw [zpow_sub₀ (by norm_num)]
    norm_num
    ring
  constructor
  · intro h
    by_contra hge
    rw [not_lt, htop, hhalf] at hge
    have hq0 : 0 < q := by nlinarith
    rcases lt_or_ge q (2 ^ (k + 53)) with hlt | htoo
    -- in the last half unit, the even neighbour is the power of two
    · have hlog : Int.log 2 q = k + 52 := by
        apply le_antisymm
        · have := (Int.lt_zpow_iff_log_lt (b := 2) (by norm_num) hq0).mp (by exact_mod_cast hlt)
          omega
        · rw [← Int.zpow_le_iff_le_log (b := 2) (by norm_num) hq0]
          push_cast
          rw [zpow_add₀ (by norm_num)]
          norm_num
          linarith
      have hexp : ulpExponent q = k := by
        rw [ulpExponent_of_pos hq0 (by omega)]
        omega
      have hround : roundHalfEven (q / 2 ^ k) = (2 ^ 53 - 1) + 1 := by
        apply roundHalfEven_of_odd (by norm_num)
        · rw [le_div_iff₀ hk0]
          push_cast
          linarith
        · rw [div_lt_iff₀ hk0]
          push_cast
          rw [htop] at hlt
          linarith
      rw [round, hexp, hround, htop] at h
      norm_num at h
    · have hlog : k + 53 ≤ Int.log 2 q := by
        rw [← Int.zpow_le_iff_le_log (b := 2) (by norm_num) hq0]
        exact_mod_cast htoo
      have hle := zpow_log_le_round hq0 (by omega)
      have hpow := zpow_le_zpow_right₀ (a := (2 : ℚ)) (by norm_num) hlog
      linarith
  · intro h
    have hexp : ulpExponent q ≤ k := by
      apply ulpExponent_le hk
      rw [abs_of_nonneg hq]
      have : (0 : ℚ) < 2 ^ (k - 1) := zpow_pos (by norm_num) _
      linarith
    obtain ⟨d, hd⟩ := Int.le.dest hexp
    have hpos : (0 : ℚ) < 2 ^ ulpExponent q := zpow_pos (by norm_num) _
    have hscale : (2 : ℚ) ^ k = 2 ^ d * 2 ^ ulpExponent q := by
      rw [← hd, add_comm, zpow_add₀ (by norm_num), zpow_natCast]
    have hone : (1 : ℚ) ≤ 2 ^ d := one_le_pow₀ (by norm_num)
    -- the power of two is a multiple of the unit, and more than half a unit away
    have hscaled : roundHalfEven (q / 2 ^ ulpExponent q) < 2 ^ 53 * 2 ^ d := by
      apply roundHalfEven_lt
      rw [div_lt_iff₀ hpos]
      rw [htop, hhalf, hscale] at h
      push_cast
      nlinarith
    have hcast : (roundHalfEven (q / 2 ^ ulpExponent q) : ℚ) < 2 ^ 53 * 2 ^ d := by
      exact_mod_cast hscaled
    rw [round, htop, hscale, ← mul_assoc]
    exact mul_lt_mul_of_pos_right hcast hpos

/-! ## Order -/

theorem roundHalfEven_mono {x y : ℚ} (h : x ≤ y) : roundHalfEven x ≤ roundHalfEven y := by
  have hxy := Int.floor_le_floor h
  rcases eq_or_lt_of_le hxy with hfloor | hfloor
  -- between the same two integers the nearer one moves up with the value
  · unfold roundHalfEven
    rw [← hfloor]
    split_ifs
    all_goals first | omega | (exfalso; linarith)
  · have hx : roundHalfEven x ≤ ⌊x⌋ + 1 := by
      unfold roundHalfEven
      split_ifs <;> omega
    have hy : ⌊y⌋ ≤ roundHalfEven y := le_roundHalfEven (Int.floor_le y)
    omega

theorem round_nonpos {q : ℚ} (h : q ≤ 0) : round q ≤ 0 := by
  have hpow : (0 : ℚ) ≤ 2 ^ ulpExponent q := zpow_nonneg (by norm_num) _
  have hround := roundHalfEven_mono (x := q / 2 ^ ulpExponent q) (y := ((0 : ℤ) : ℚ))
    (by exact_mod_cast div_nonpos_of_nonpos_of_nonneg h hpow)
  rw [roundHalfEven_intCast] at hround
  exact mul_nonpos_of_nonpos_of_nonneg (by exact_mod_cast hround) hpow

theorem ulpExponent_mono {x y : ℚ} (h0 : 0 < x) (h : x ≤ y) : ulpExponent x ≤ ulpExponent y := by
  have hlog : Int.log 2 |x| ≤ Int.log 2 |y| := by
    rw [abs_of_pos h0, abs_of_pos (lt_of_lt_of_le h0 h)]
    exact Int.log_mono_right h0 h
  unfold ulpExponent
  omega

/-- A positive value rounds to at most the power of two above it. -/
theorem round_le_zpow {q : ℚ} (hq : 0 < q) : round q ≤ 2 ^ (ulpExponent q + 53) := by
  have hpos : (0 : ℚ) < 2 ^ ulpExponent q := zpow_pos (by norm_num) _
  have hlog : Int.log 2 q ≤ ulpExponent q + 52 := by
    unfold ulpExponent
    rw [abs_of_pos hq]
    omega
  have hlt : q < 2 ^ (ulpExponent q + 53) := by
    have h := (Int.lt_zpow_iff_log_lt (b := 2) (x := ulpExponent q + 53) (by norm_num) hq).mpr
      (by omega)
    exact_mod_cast h
  have hscaled : q / 2 ^ ulpExponent q ≤ ((2 ^ 53 : ℤ) : ℚ) := by
    rw [div_le_iff₀ hpos]
    rw [zpow_add₀ (by norm_num), mul_comm] at hlt
    exact_mod_cast hlt.le
  have hround := roundHalfEven_mono hscaled
  rw [roundHalfEven_intCast] at hround
  have hround' : (roundHalfEven (q / 2 ^ ulpExponent q) : ℚ) ≤ 2 ^ 53 := by exact_mod_cast hround
  calc round q ≤ 2 ^ 53 * 2 ^ ulpExponent q := mul_le_mul_of_nonneg_right hround' hpos.le
    _ = 2 ^ (ulpExponent q + 53) := by
      rw [zpow_add₀ (by norm_num), mul_comm]
      norm_num

/-- Rounding keeps the order of values that are not negative. -/
theorem round_mono {x y : ℚ} (h0 : 0 ≤ x) (h : x ≤ y) : round x ≤ round y := by
  rcases eq_or_lt_of_le h0 with rfl | hx
  · have hzero : round 0 = 0 := by
      have := round_intCast (n := 0) (by norm_num)
      exact_mod_cast this
    rw [hzero]
    exact round_nonneg h
  have hy := lt_of_lt_of_le hx h
  rcases eq_or_lt_of_le (ulpExponent_mono hx h) with hexp | hexp
  -- with one spacing the multiples are in the order of the values
  · have hpos : (0 : ℚ) < 2 ^ ulpExponent y := zpow_pos (by norm_num) _
    have hscaled := roundHalfEven_mono (div_le_div_of_nonneg_right h hpos.le)
    have hscaled' : (roundHalfEven (x / 2 ^ ulpExponent y) : ℚ) ≤
        roundHalfEven (y / 2 ^ ulpExponent y) := by exact_mod_cast hscaled
    rw [round, hexp, round]
    exact mul_le_mul_of_nonneg_right hscaled' hpos.le
  -- with a wider spacing there is a power of two between the results
  · have hlog : Int.log 2 y = ulpExponent y + 52 := by
      have hmin : -1074 ≤ ulpExponent x := le_max_left _ _
      have hval : ulpExponent y = max (-1074) (Int.log 2 y - 52) := by
        rw [ulpExponent, abs_of_pos hy]
      omega
    have hmin : -1074 ≤ ulpExponent x := le_max_left _ _
    calc round x ≤ 2 ^ (ulpExponent x + 53) := round_le_zpow hx
      _ ≤ 2 ^ Int.log 2 y := zpow_le_zpow_right₀ (by norm_num) (by omega)
      _ ≤ round y := zpow_log_le_round hy (by omega)

end ArgoExporter.Lib.Binary64
