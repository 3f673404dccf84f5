/-
  ArgoExporter.Py.Number

  Arithmetic on Python numbers: an `int` is exact, a `float` is a double, and
  converting an `int` that is too large raises, to a `float` as well as to text.
-/

import ArgoExporter.Lib.Binary64
import ArgoExporter.Py.Exc
import ArgoExporter.Py.Json
import ArgoExporter.Py.Text

namespace ArgoExporter.Py

open ArgoExporter.Lib

/-- `int(x)` of a finite float: towards zero. -/
def truncate (x : Rat) : Int := if x < 0 then ⌈x⌉ else ⌊x⌋

theorem truncate_nonneg {x : Rat} (h : 0 ≤ x) : 0 ≤ truncate x := by
  rw [truncate, if_neg (not_lt.mpr h)]
  exact Int.floor_nonneg.mpr h

theorem truncate_mem_Icc {x : Rat} {n : Int} (h : |x| ≤ n) : -n ≤ truncate x ∧ truncate x ≤ n := by
  obtain ⟨hlow, hhigh⟩ := abs_le.mp h
  unfold truncate
  split_ifs with hneg
  · refine ⟨?_, Int.ceil_le.mpr hhigh⟩
    have hceil : ((-n : Int) : Rat) ≤ ⌈x⌉ := by
      push_cast
      exact le_trans hlow (Int.le_ceil x)
    exact_mod_cast hceil
  · refine ⟨Int.le_floor.mpr ?_, ?_⟩
    · push_cast
      exact hlow
    · have hfloor : (⌊x⌋ : Rat) ≤ n := le_trans (Int.floor_le x) hhigh
      exact_mod_cast hfloor

/-- Number of decimal digits, the sign apart. -/
def digitCount (n : Int) : Nat := (Nat.toDigits 10 n.natAbs).length

/-- `str(n)`. -/
def strInt (n : Int) : Except Exc String :=
  if digitCount n ≤ maxStrDigits then .ok s!"{n}"
  else raise .valueError "Exceeds the limit (4300 digits) for integer string conversion"

/-- Magnitudes from here on are not doubles. -/
def maxDouble : Rat := 2 ^ 1024

/-- Magnitudes from here on have no nearest double. -/
def floatLimit : Rat := 2 ^ 1024 - 2 ^ 970

namespace PyFloat

/-- The float nearest to an exact result. -/
def ofRat (q : Rat) : PyFloat :=
  let r := Binary64.round q
  if |r| < maxDouble then fin r else inf (q < 0)

/-- `float(n)`. -/
def ofInt (n : Int) : Except Exc PyFloat :=
  match ofRat n with
  | fin r => .ok (fin r)
  | _ => raise .overflowError "int too large to convert to float"

/-- `x + y`. -/
def add : PyFloat → PyFloat → PyFloat
  | fin x, fin y => ofRat (x + y)
  | nan, _ => nan
  | _, nan => nan
  | inf a, inf b => if a = b then inf a else nan
  | inf a, fin _ => inf a
  | fin _, inf b => inf b

/-- `x < y`. -/
def lt : PyFloat → PyFloat → Bool
  | fin x, fin y => x < y
  | inf true, fin _ => true
  | fin _, inf false => true
  | inf true, inf false => true
  | _, _ => false

/-- `isfinite(x)`. -/
def isFinite : PyFloat → Bool
  | fin _ => true
  | _ => false

theorem ofRat_of_round {q r : Rat} (h : Binary64.round q = r) (hr : |r| < maxDouble) :
    ofRat q = fin r := by
  simp only [ofRat, h, if_pos hr]

/-- A value has a nearest float up to half a unit below the first power of two that is none. -/
theorem round_lt_maxDouble_iff {q : Rat} (h0 : 0 ≤ q) :
    |Binary64.round q| < maxDouble ↔ q < floatLimit := by
  have hround := Binary64.round_lt_zpow_iff (k := 971) (by norm_num) h0
  have htop : (2 : Rat) ^ ((971 : Int) + 53) = maxDouble := zpow_natCast 2 1024
  have hhalf : (2 : Rat) ^ ((971 : Int) - 1) = 2 ^ 970 := zpow_natCast 2 970
  rw [htop, hhalf] at hround
  rw [abs_of_nonneg (Binary64.round_nonneg h0)]
  exact hround

/-- `float(n)` succeeds up to the limit. -/
theorem ofInt_of_lt_limit {n : Int} (h0 : 0 ≤ n) (h : (n : Rat) < floatLimit) :
    ofInt n = .ok (ofRat n) := by
  have hround := (round_lt_maxDouble_iff (by exact_mod_cast h0)).mpr h
  have hfin : ofRat n = fin (Binary64.round n) := if_pos hround
  unfold ofInt
  simp only [hfin]

theorem ofInt_of_limit_le {n : Int} (h0 : 0 ≤ n) (h : floatLimit ≤ n) :
    ofInt n = raise .overflowError "int too large to convert to float" := by
  have hround : ¬ |Binary64.round n| < maxDouble := by
    rw [round_lt_maxDouble_iff (by exact_mod_cast h0)]
    exact not_lt.mpr h
  have hinf : ofRat n = inf ((n : Rat) < 0) := if_neg hround
  unfold ofInt
  simp only [hinf]

theorem ofInt_isOk_iff {n : Int} (h0 : 0 ≤ n) :
    (∃ x, ofInt n = .ok x) ↔ (n : Rat) < floatLimit := by
  rcases lt_or_ge (n : Rat) floatLimit with h | h
  · exact iff_of_true ⟨_, ofInt_of_lt_limit h0 h⟩ h
  · rw [ofInt_of_limit_le h0 h]
    exact iff_of_false (by simp) (not_lt.mpr h)

theorem pow_le_maxDouble {k : Nat} (h : k ≤ 1024) : (2 : Rat) ^ k ≤ maxDouble := by
  unfold maxDouble
  exact pow_le_pow_right₀ one_le_two h

theorem pow_le_floatLimit {k : Nat} (h : k ≤ 1023) : (2 : Rat) ^ k ≤ floatLimit := by
  have hhalf : (2 : Rat) ^ 970 ≤ 2 ^ 1023 := pow_le_pow_right₀ one_le_two (by omega)
  have htop : (2 : Rat) ^ 1024 = 2 ^ 1023 + 2 ^ 1023 := by rw [pow_succ, mul_two]
  refine le_trans (pow_le_pow_right₀ one_le_two h) ?_
  rw [floatLimit, le_sub_iff_add_le, htop]
  exact add_le_add_right hhalf _

theorem ofRat_intCast {n : Int} (h : |n| < 2 ^ 53) : ofRat n = fin n := by
  apply ofRat_of_round (Binary64.round_intCast h)
  have h1 : |(n : Rat)| < 2 ^ 53 := by exact_mod_cast h
  exact lt_of_lt_of_le h1 (pow_le_maxDouble (by omega))

theorem ofInt_of_lt {n : Int} (h : |n| < 2 ^ 53) : ofInt n = .ok (fin n) := by
  unfold ofInt
  simp only [ofRat_intCast h]

/-- A value at least a microsecond below an integer of up to 34 bits is below it as a float. -/
theorem ofRat_lt_intCast {q : Rat} {n : Int} (h0 : 0 ≤ q) (hq : q ≤ n - 1 / 1000000)
    (hn : n ≤ 2 ^ 34) : ∃ r < (n : Rat), ofRat q = fin r := by
  have hlt := Binary64.round_lt_intCast h0 hq hn
  have hnonneg := Binary64.round_nonneg h0
  have hn' : (n : Rat) ≤ 2 ^ 34 := by exact_mod_cast hn
  refine ⟨Binary64.round q, hlt, ofRat_of_round rfl ?_⟩
  rw [abs_of_nonneg hnonneg]
  exact lt_of_lt_of_le hlt (le_trans hn' (pow_le_maxDouble (by omega)))

/-- What is below an integer of up to 53 bits is below the float of anything from it on. -/
theorem lt_ofRat {r q : Rat} {n : Int} (h0 : 0 ≤ n) (hn : n ≤ 2 ^ 53) (hr : r < n) (hq : n ≤ q) :
    (fin r).lt (ofRat q) = true := by
  have hround := Binary64.intCast_le_round h0 hn hq
  have hq0 : ¬ q < 0 := not_lt.mpr (le_trans (by exact_mod_cast h0) hq)
  unfold ofRat
  dsimp only
  split
  · exact decide_eq_true (lt_of_lt_of_le hr hround)
  · rw [decide_eq_false hq0]
    rfl

end PyFloat

end ArgoExporter.Py
