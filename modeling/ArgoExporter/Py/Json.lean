/-
  ArgoExporter.Py.Json

  Values of Python's `json` module: what `json.loads` returns and what the
  cells of a row hold.  Objects are lists of fields in document order; lookup
  takes the first field of a name, and `DistinctKeys` says that there is at
  most one, as in every Python dict.
-/

import ArgoExporter.Lib.OrderedDict
import Mathlib.Data.Rat.Defs
import Mathlib.Data.List.Nodup
import Mathlib.Algebra.Order.Ring.Unbundled.Rat

namespace ArgoExporter.Py

/-- A Python float, finite ones by their exact value. -/
inductive PyFloat where
  | fin (q : Rat)
  | inf (negative : Bool)
  | nan
  deriving DecidableEq, Repr

/-- A decoded JSON value.  Strings are sequences of Unicode scalar values: the lone surrogates that
    `json.loads` returns for some escapes are outside the model. -/
inductive Json where
  | null
  | bool (b : Bool)
  | int (n : Int)
  | float (x : PyFloat)
  | str (s : String)
  | arr (items : List Json)
  | obj (fields : List (String × Json))
  deriving Repr

namespace Json

/-- `type(value).__name__`. -/
def typeName : Json → String
  | null => "NoneType"
  | bool _ => "bool"
  | int _ => "int"
  | float _ => "float"
  | str _ => "str"
  | arr _ => "list"
  | obj _ => "dict"

def isNull : Json → Bool
  | null => true
  | _ => false

def isStr : Json → Bool
  | str _ => true
  | _ => false

def isBool : Json → Bool
  | bool _ => true
  | _ => false

/-- `isinstance(value, int) and not isinstance(value, bool)`. -/
def isInt : Json → Bool
  | int _ => true
  | _ => false

def isList : Json → Bool
  | arr _ => true
  | _ => false

def isDict : Json → Bool
  | obj _ => true
  | _ => false

/-- `bool(value)`. -/
def truthy : Json → Bool
  | null => false
  | bool b => b
  | int n => n ≠ 0
  | float (.fin q) => q ≠ 0
  | float _ => true
  | str s => s ≠ ""
  | arr items => !items.isEmpty
  | obj fields => !fields.isEmpty

/-- `a or b`. -/
def or (a b : Json) : Json := if a.truthy then a else b

/-- The value under a key, if the value is an object that has it. -/
def get? : Json → String → Option Json
  | obj fields, k => (fields.find? fun e => e.1 = k).map Prod.snd
  | _, _ => none

/-- `value.get(key)`. -/
def get (j : Json) (k : String) : Json := (j.get? k).getD null

/-- `value.get(key, default)`. -/
def getD (j : Json) (k : String) (default : Json) : Json := (j.get? k).getD default

/-- `key in value`. -/
def has (j : Json) (k : String) : Bool := (j.get? k).isSome

/-- `value.items()`. -/
def fields : Json → List (String × Json)
  | obj fs => fs
  | _ => []

/-- `value or ""` for a value that is a string or `None`. -/
def orEmpty : Json → String
  | str s => s
  | _ => ""

/-- A column value that may be missing. -/
def ofStr? : Option String → Json
  | some s => str s
  | none => null

def ofInt? : Option Int → Json
  | some n => int n
  | none => null

/-- `{**value, key: v}`. -/
def set (j : Json) (k : String) (v : Json) : Json :=
  match j with
  | obj fs => obj ((k, v) :: fs.filter fun e => e.1 ≠ k)
  | j => j

/-! ## Equality and order of Python values -/

/-- Sort key of a number: finite values by their value between the two infinities.  All NaN values
    of one process are one object, so they compare equal inside a container. -/
def numKey? : Json → Option (Int × Rat)
  | bool b => some (0, if b then 1 else 0)
  | int n => some (0, n)
  | float (.fin q) => some (0, q)
  | float (.inf negative) => some (if negative then -1 else 1, 0)
  | float .nan => some (2, 0)
  | _ => none

/-- `a is b or a == b` of two values that are not both lists or both dicts. -/
def scalarEq : Json → Json → Bool
  | null, null => true
  | str s, str t => s = t
  | a, b => a.numKey?.isSome && a.numKey? = b.numKey?

mutual

/-- `a is b or a == b`. -/
def pyEq : Json → Json → Bool
  | arr xs, arr ys => pyEqItems xs ys
  | obj fs, obj gs => fs.length = gs.length && pyEqFields fs (obj gs)
  | a, b => a.scalarEq b

def pyEqItems : List Json → List Json → Bool
  | [], [] => true
  | x :: xs, y :: ys => pyEq x y && pyEqItems xs ys
  | _, _ => false

def pyEqFields : List (String × Json) → Json → Bool
  | [], _ => true
  | (k, v) :: fs, other =>
      (match other.get? k with
        | some w => pyEq v w
        | none => false) && pyEqFields fs other

end

/-- Lists and dicts cannot be members of a set. -/
def hashable (j : Json) : Bool := !(j.isList || j.isDict)

@[simp] theorem pyEq_str (s t : String) : (str s).pyEq (str t) = decide (s = t) := by
  rw [pyEq]
  · rfl
  all_goals simp

/-- Only a string equals a string. -/
theorem pyEq_str_iff (j : Json) (s : String) : j.pyEq (str s) = true ↔ j = str s := by
  cases j with
  | str t => simp
  | float x =>
      have hkey : (str s).numKey? = none := rfl
      rw [pyEq]
      · simp only [scalarEq, hkey]
        cases (float x).numKey? <;> simp
      all_goals simp
  | _ => simp [pyEq, scalarEq, numKey?]

/-- Only `None` equals `None`. -/
theorem pyEq_null_iff (j : Json) : j.pyEq null = true ↔ j = null := by
  cases j with
  | null => simp [pyEq, scalarEq]
  | float x =>
      have hkey : null.numKey? = none := rfl
      rw [pyEq]
      · simp only [scalarEq, hkey]
        cases (float x).numKey? <;> simp
      all_goals simp
  | _ => simp [pyEq, scalarEq, numKey?]

/-- Numbers are equal when their keys are, and nothing else equals a number. -/
theorem pyEq_number_iff {b : Json} {key : Int × Rat} (hb : b.numKey? = some key) (a : Json) :
    a.pyEq b = true ↔ a.numKey? = some key := by
  have hscalar : a.scalarEq b = true ↔ a.numKey? = some key := by
    unfold scalarEq
    split
    · exact absurd hb (by simp [numKey?])
    · exact absurd hb (by simp [numKey?])
    · rw [hb, Bool.and_eq_true, decide_eq_true_eq]
      exact ⟨And.right, fun h => ⟨by rw [h]; rfl, h⟩⟩
  rw [pyEq]
  · exact hscalar
  · rintro xs ys - rfl
    exact absurd hb (by simp [numKey?])
  · rintro fs gs - rfl
    exact absurd hb (by simp [numKey?])

theorem hashable_cases {j : Json} (h : j.hashable = true) :
    j = null ∨ (∃ s, j = str s) ∨ ∃ key, j.numKey? = some key := by
  cases j with
  | null => exact Or.inl rfl
  | str s => exact Or.inr (Or.inl ⟨s, rfl⟩)
  | bool b => exact Or.inr (Or.inr ⟨_, rfl⟩)
  | int n => exact Or.inr (Or.inr ⟨_, rfl⟩)
  | float x => cases x <;> exact Or.inr (Or.inr ⟨_, rfl⟩)
  | arr items => exact absurd h Bool.false_ne_true
  | obj fields => exact absurd h Bool.false_ne_true

theorem pyEq_self {j : Json} (h : j.hashable = true) : j.pyEq j = true := by
  rcases hashable_cases h with rfl | ⟨s, rfl⟩ | ⟨key, hkey⟩
  · exact (pyEq_null_iff null).mpr rfl
  · exact (pyEq_str_iff _ s).mpr rfl
  · exact (pyEq_number_iff hkey j).mpr hkey

/-- Two values that equal a third equal each other. -/
theorem pyEq_of_pyEq {a b c : Json} (hc : c.hashable = true) (ha : a.pyEq c = true)
    (hb : b.pyEq c = true) : a.pyEq b = true := by
  rcases hashable_cases hc with rfl | ⟨s, rfl⟩ | ⟨key, hkey⟩
  · rw [(pyEq_null_iff b).mp hb]
    exact ha
  · rw [(pyEq_str_iff b s).mp hb]
    exact ha
  · exact (pyEq_number_iff ((pyEq_number_iff hkey b).mp hb) a).mpr ((pyEq_number_iff hkey a).mp ha)

@[simp] theorem orEmpty_str (s : String) : (str s).orEmpty = s := rfl

@[simp] theorem orEmpty_null : null.orEmpty = "" := rfl

@[simp] theorem get?_obj_cons (k : String) (v : Json) (fs : List (String × Json)) (k' : String) :
    (obj ((k, v) :: fs)).get? k' = if k = k' then some v else (obj fs).get? k' := by
  by_cases h : k = k'
  · simp [get?, h]
  · simp [get?, h]

@[simp] theorem get?_obj_nil (k : String) : (obj []).get? k = none := rfl

theorem isDict_set (j : Json) (k : String) (v : Json) : (j.set k v).isDict = j.isDict := by
  cases j <;> rfl

theorem get?_set_self {j : Json} (h : j.isDict = true) (k : String) (v : Json) :
    (j.set k v).get? k = some v := by
  cases j with
  | obj fs => rw [set, get?_obj_cons, if_pos rfl]
  | _ => exact absurd h (by simp [isDict])

theorem get?_set_ne (j : Json) {k k' : String} (v : Json) (h : k' ≠ k) :
    (j.set k v).get? k' = j.get? k' := by
  cases j with
  | obj fs =>
      rw [set, get?_obj_cons, if_neg (Ne.symm h), get?, get?, List.find?_filter]
      congr 2
      funext e
      by_cases he : e.1 = k'
      · simp [he, h]
      · simp [he]
  | _ => rfl

theorem isStr_iff (j : Json) : j.isStr = true ↔ ∃ s, j = str s := by
  cases j <;> simp [isStr]

theorem isDict_iff (j : Json) : j.isDict = true ↔ ∃ fs, j = obj fs := by
  cases j <;> simp [isDict]

theorem isNull_iff (j : Json) : j.isNull = true ↔ j = null := by
  cases j <;> simp [isNull]

/-- No object inside the value has two fields of one name. -/
inductive DistinctKeys : Json → Prop where
  | null : DistinctKeys null
  | bool (b : Bool) : DistinctKeys (bool b)
  | int (n : Int) : DistinctKeys (int n)
  | float (x : PyFloat) : DistinctKeys (float x)
  | str (s : String) : DistinctKeys (str s)
  | arr {items : List Json} (h : ∀ v ∈ items, DistinctKeys v) : DistinctKeys (arr items)
  | obj {fields : List (String × Json)} (hk : (fields.map Prod.fst).Nodup)
      (h : ∀ e ∈ fields, DistinctKeys e.2) : DistinctKeys (obj fields)

theorem DistinctKeys.fields_nodup {j : Json} (h : j.DistinctKeys) :
    (j.fields.map Prod.fst).Nodup := by
  cases h with
  | obj hk _ => exact hk
  | _ => exact List.nodup_nil

/-- With distinct keys the fields are what lookup finds. -/
theorem DistinctKeys.get?_eq_some_iff {j : Json} (h : j.DistinctKeys) {k : String} {v : Json} :
    j.get? k = some v ↔ (k, v) ∈ j.fields := by
  cases h with
  | obj hk _ => exact Lib.OrderedDict.lookup_eq_some_iff hk k v
  | _ => simp [get?, fields]

theorem DistinctKeys.get {j : Json} (h : j.DistinctKeys) (k : String) :
    (j.get k).DistinctKeys := by
  rw [Json.get]
  cases hv : j.get? k with
  | none => exact .null
  | some v =>
      have hmem := h.get?_eq_some_iff.mp hv
      cases h with
      | obj _ hall => exact hall _ hmem
      | _ => exact absurd hmem List.not_mem_nil

end Json

end ArgoExporter.Py
