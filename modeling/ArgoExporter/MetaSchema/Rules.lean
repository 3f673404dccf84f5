/-
  ArgoExporter.MetaSchema.Rules

  What the rules of the schema accept, apart from the messages their interpreter
  writes.  `Rule.Accepts` is the meaning of a rule, and the interpreter reports
  nothing exactly on the values it accepts (`check_eq_nil_iff`).
-/

import ArgoExporter.MetaSchema

namespace ArgoExporter.MetaSchema

open ArgoExporter.Lib
open ArgoExporter.Py

/-- The values that conform to a rule. -/
inductive Rule.Accepts : Rule → Json → Prop where
  | object {required : List String} {properties : List (String × Rule)}
      {fields : List (String × Json)}
      (hrequired : ∀ key ∈ required, (Json.obj fields).has key = true)
      (hknown : ∀ e ∈ fields, e.1 ∈ properties.map Prod.fst)
      (hproperties : ∀ p ∈ properties, ∀ v, (Json.obj fields).get? p.1 = some v → Accepts p.2 v) :
      Accepts (.object required properties) (.obj fields)
  | array {minItems : Nat} {items : Rule} {values : List Json} (hlen : minItems ≤ values.length)
      (hitems : ∀ v ∈ values, Accepts items v) : Accepts (.array minItems items) (.arr values)
  | string {minLength : Nat} {pattern : Option Pattern} {isTimestamp : Bool} {s : String}
      (hlen : minLength ≤ s.length) (hpattern : ∀ p, pattern = some p → p.fullmatch s = true)
      (htime : isTimestamp = true → strptime s ≠ none) :
      Accepts (.string minLength pattern isTimestamp) (.str s)
  | integer {minimum : Option Int} {n : Int} (hmin : ∀ least, minimum = some least → least ≤ n) :
      Accepts (.integer minimum) (.int n)
  | boolean (b : Bool) : Accepts .boolean (.bool b)

/-! ## One value at a time -/

section Values

variable {Bytes : Type} (py : Platform Bytes)

theorem checkString_eq_nil_iff (s : String) (minLength : Nat) (pattern : Option Pattern)
    (isTimestamp : Bool) (path : String) :
    checkString py s minLength pattern isTimestamp path = [] ↔
      minLength ≤ s.length ∧ (∀ p, pattern = some p → p.fullmatch s = true) ∧
        (isTimestamp = true → strptime s ≠ none) := by
  have hlen : (if s.length < minLength then [s!"{path} must not be empty"] else []) = [] ↔
      minLength ≤ s.length := by
    rw [ite_eq_right_iff, imp_iff_not (List.cons_ne_nil _ _), not_lt]
  have htime : (if isTimestamp ∧ strptime s = none then
      [s!"{path} is shaped like a timestamp but not a real UTC time: {py.repr (.str s)}"]
      else []) = [] ↔ (isTimestamp = true → strptime s ≠ none) := by
    rw [ite_eq_right_iff, imp_iff_not (List.cons_ne_nil _ _), not_and]
  unfold checkString
  rw [List.append_eq_nil_iff, List.append_eq_nil_iff, hlen, htime, and_assoc]
  refine and_congr_right fun _ => and_congr_left fun _ => ?_
  cases pattern with
  | none => simp
  | some p => simp

theorem checkInteger_eq_nil_iff (n : Int) (minimum : Option Int) (path : String) :
    checkInteger n minimum path = [] ↔ ∀ least, minimum = some least → least ≤ n := by
  cases minimum with
  | none => simp [checkInteger]
  | some least => simp [checkInteger]

theorem missingFields_eq_nil_iff (value : Json) (required : List String) (path : String) :
    missingFields py value required path = [] ↔ ∀ key ∈ required, value.has key = true := by
  simp [missingFields]

theorem unexpectedFields_eq_nil_iff (fields : List (String × Json)) (known : List String)
    (path : String) :
    unexpectedFields py fields known path = [] ↔ ∀ e ∈ fields, e.1 ∈ known := by
  simp [unexpectedFields]

theorem tooFewItems_eq_nil_iff (items : List Json) (minItems : Nat) (path : String) :
    tooFewItems items minItems path = [] ↔ minItems ≤ items.length := by
  simp [tooFewItems]

/-- An index into a list does not restrict its members. -/
theorem forall_mem_zipIdx_iff {α : Type} (l : List α) (p : α → Prop) :
    (∀ e ∈ l.zipIdx, p e.1) ↔ ∀ a ∈ l, p a := by
  have hfst : l = l.zipIdx.map Prod.fst := by simp
  constructor
  · intro h a ha
    rw [hfst] at ha
    obtain ⟨e, he, rfl⟩ := List.mem_map.mp ha
    exact h e he
  · exact fun h e he => h e.1 (List.fst_mem_of_mem_zipIdx he)

end Values

/-! ## The interpreter -/

section Interpreter

variable {Bytes : Type} (py : Platform Bytes)

mutual

/-- The interpreter has nothing to report about the values that conform, and about no others. -/
theorem check_eq_nil_iff (value : Json) (path : String) (rule : Rule) :
    check py value path rule = [] ↔ rule.Accepts value := by
  -- a value of another type gets one message and no further checks
  cases rule with
  | object required properties =>
      cases value with
      | obj fields =>
          rw [check, List.append_eq_nil_iff, List.append_eq_nil_iff, missingFields_eq_nil_iff,
            unexpectedFields_eq_nil_iff, checkProperties_eq_nil_iff, and_assoc]
          exact ⟨fun h => .object h.1 h.2.1 h.2.2, fun (.object h1 h2 h3) => ⟨h1, h2, h3⟩⟩
      | _ => exact iff_of_false (by simp [check, wrongType]) (by rintro ⟨⟩)
  | array minItems items =>
      cases value with
      | arr values =>
          have hitems : (∀ e ∈ values.zipIdx, check py e.1 s!"{path}[{e.2}]" items = []) ↔
              ∀ v ∈ values, items.Accepts v :=
            Iff.trans (forall₂_congr fun e _ => check_eq_nil_iff (Prod.fst e) _ items)
              (forall_mem_zipIdx_iff values items.Accepts)
          rw [check, List.append_eq_nil_iff, tooFewItems_eq_nil_iff, List.flatMap_eq_nil_iff, hitems]
          exact ⟨fun h => .array h.1 h.2, fun (.array h1 h2) => ⟨h1, h2⟩⟩
      | _ => exact iff_of_false (by simp [check, wrongType]) (by rintro ⟨⟩)
  | string minLength pattern isTimestamp =>
      cases value with
      | str s =>
          rw [check, checkString_eq_nil_iff]
          exact ⟨fun h => .string h.1 h.2.1 h.2.2, fun (.string h1 h2 h3) => ⟨h1, h2, h3⟩⟩
      | _ => exact iff_of_false (by simp [check, wrongType]) (by rintro ⟨⟩)
  | integer minimum =>
      cases value with
      | int n =>
          rw [check, checkInteger_eq_nil_iff]
          exact ⟨.integer, fun (.integer h) => h⟩
      | _ => exact iff_of_false (by simp [check, wrongType]) (by rintro ⟨⟩)
  | boolean =>
      cases value with
      | bool b => exact iff_of_true (by rw [check]) (.boolean b)
      | _ => exact iff_of_false (by simp [check, wrongType]) (by rintro ⟨⟩)

theorem checkProperties_eq_nil_iff (value : Json) (path : String)
    (properties : List (String × Rule)) :
    checkProperties py value path properties = [] ↔
      ∀ p ∈ properties, ∀ v, value.get? p.1 = some v → p.2.Accepts v := by
  cases properties with
  | nil => simp [checkProperties]
  | cons p properties =>
      obtain ⟨key, rule⟩ := p
      rw [checkProperties, List.append_eq_nil_iff, checkProperties_eq_nil_iff,
        List.forall_mem_cons]
      refine and_congr_left fun _ => ?_
      -- a property that is absent is not looked at
      cases value.get? key with
      | none => simp
      | some v => simpa using check_eq_nil_iff v _ rule

end

end Interpreter

/-! ## What each rule accepts -/

theorem accepts_string_iff {minLength : Nat} {pattern : Option Pattern} {isTimestamp : Bool}
    {v : Json} : (Rule.string minLength pattern isTimestamp).Accepts v ↔
      ∃ s, v = .str s ∧ minLength ≤ s.length ∧ (∀ p, pattern = some p → p.fullmatch s = true) ∧
        (isTimestamp = true → strptime s ≠ none) := by
  constructor
  · rintro (_ | _ | ⟨hlen, hpattern, htime⟩ | _ | _)
    exact ⟨_, rfl, hlen, hpattern, htime⟩
  · rintro ⟨s, rfl, hlen, hpattern, htime⟩
    exact .string hlen hpattern htime

theorem accepts_integer_iff {least : Int} {v : Json} :
    (Rule.integer (some least)).Accepts v ↔ ∃ n, v = .int n ∧ least ≤ n := by
  constructor
  · rintro (_ | _ | _ | ⟨hmin⟩ | _)
    exact ⟨_, rfl, hmin least rfl⟩
  · rintro ⟨n, rfl, hmin⟩
    exact .integer fun least' h => Option.some.inj h ▸ hmin

theorem accepts_boolean_iff {v : Json} : Rule.boolean.Accepts v ↔ ∃ b, v = .bool b := by
  constructor
  · rintro (_ | _ | _ | _ | ⟨b⟩)
    exact ⟨b, rfl⟩
  · rintro ⟨b, rfl⟩
    exact .boolean b

theorem accepts_array_iff {minItems : Nat} {items : Rule} {v : Json} :
    (Rule.array minItems items).Accepts v ↔
      ∃ values, v = .arr values ∧ minItems ≤ values.length ∧ ∀ w ∈ values, items.Accepts w := by
  constructor
  · rintro (_ | ⟨hlen, hitems⟩ | _ | _ | _)
    exact ⟨_, rfl, hlen, hitems⟩
  · rintro ⟨values, rfl, hlen, hitems⟩
    exact .array hlen hitems

/-- An object whose keys are exactly these. -/
def HasExactly (v : Json) (keys : List String) : Prop :=
  v.isDict = true ∧ ∀ key, v.has key = true ↔ key ∈ keys

theorem has_obj_iff (fields : List (String × Json)) (key : String) :
    (Json.obj fields).has key = true ↔ ∃ e ∈ fields, e.1 = key := by
  rw [Json.has, Json.get?, Option.isSome_map, List.find?_isSome]
  simp only [decide_eq_true_eq]

theorem get?_of_has {v : Json} {key : String} (h : v.has key = true) :
    v.get? key = some (v.get key) := by
  obtain ⟨w, hw⟩ := Option.isSome_iff_exists.mp h
  rw [Json.get, hw]
  rfl

/-- An object rule that requires all its properties and allows no other. -/
theorem accepts_object_iff {required : List String} {properties : List (String × Rule)}
    (h : required = properties.map Prod.fst) {v : Json} :
    (Rule.object required properties).Accepts v ↔
      HasExactly v required ∧ ∀ p ∈ properties, p.2.Accepts (v.get p.1) := by
  subst h
  constructor
  · rintro (⟨hrequired, hknown, hproperties⟩ | _ | _ | _ | _)
    refine ⟨⟨rfl, fun key => ⟨fun hkey => ?_, hrequired key⟩⟩, fun p hp => ?_⟩
    · obtain ⟨e, he, rfl⟩ := (has_obj_iff _ key).mp hkey
      exact hknown e he
    · exact hproperties p hp _ (get?_of_has (hrequired p.1 (List.mem_map_of_mem hp)))
  · rintro ⟨⟨hdict, hkeys⟩, hproperties⟩
    obtain ⟨fields, rfl⟩ := (Json.isDict_iff v).mp hdict
    refine .object (fun key hkey => (hkeys key).mpr hkey) (fun e he => ?_) (fun p hp w hw => ?_)
    · exact (hkeys e.1).mp ((has_obj_iff fields e.1).mpr ⟨e, he, rfl⟩)
    · have hget : (Json.obj fields).get p.1 = w := by
        rw [Json.get, hw]
        rfl
      exact hget ▸ hproperties p hp

end ArgoExporter.MetaSchema
