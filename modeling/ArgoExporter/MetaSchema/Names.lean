/-
  ArgoExporter.MetaSchema.Names

  The names that occur more than once.  They are put in a set and sorted, and
  both steps can fail: lists and dicts are not hashable, and Python orders
  strings among themselves and numbers among themselves, nothing else
  (`duplicatedNames_isOk_iff`).  There is nothing to report exactly when no
  name is repeated (`duplicatedNames_eq_nil_iff`).
-/

import ArgoExporter.MetaSchema

namespace ArgoExporter.MetaSchema

open ArgoExporter.Lib
open ArgoExporter.Py

/-- The names that occur more than once, as often as they occur. -/
def repeatedNames (names : List Json) : List Json :=
  names.filter fun n => 1 < (names.filter fun m => n.pyEq m).length

/-- The values of a list, each of them once. -/
def distinct (names : List Json) : List Json :=
  names.foldl (fun seen n => if seen.any n.pyEq then seen else seen ++ [n]) []

theorem duplicatedNames_of_hashable {names : List Json}
    (h : ∀ n ∈ repeatedNames names, n.hashable = true) :
    duplicatedNames names = sortNames (distinct (repeatedNames names)) := by
  have hfind : (repeatedNames names).find? (fun n => !n.hashable) = none := by
    rw [List.find?_eq_none]
    intro n hn
    simp [h n hn]
  unfold repeatedNames at hfind
  rw [duplicatedNames, hfind]
  rfl

theorem duplicatedNames_of_unhashable {names : List Json} {n : Json} (hn : n ∈ repeatedNames names)
    (h : n.hashable = false) : ∃ msg, duplicatedNames names = raise .typeError msg := by
  cases hfind : (repeatedNames names).find? fun n => !n.hashable with
  | none =>
      rw [List.find?_eq_none] at hfind
      exact absurd (by simp [h]) (hfind n hn)
  | some m =>
      unfold repeatedNames at hfind
      rw [duplicatedNames, hfind]
      exact ⟨_, rfl⟩

/-! ## The values of a list -/

/-- `seen` has every value of `names`, and each of them once. -/
structure Distinct (names seen : List Json) : Prop where
  mem : ∀ n ∈ seen, n ∈ names
  covers : ∀ n ∈ names, ∃ m ∈ seen, n.pyEq m = true
  apart : seen.Pairwise fun m n => n.pyEq m = false

theorem distinct_spec {names : List Json} (h : ∀ n ∈ names, n.hashable = true) :
    Distinct names (distinct names) := by
  -- the set grows by the last value unless it has an equal one
  induction names using List.reverseRecOn with
  | nil => exact ⟨fun _ hn => hn, fun _ hn => absurd hn List.not_mem_nil, .nil⟩
  | append_singleton names n ih =>
      rw [List.forall_mem_append, List.forall_mem_singleton] at h
      obtain ⟨hmem, hcovers, hapart⟩ := ih h.1
      have hstep : distinct (names ++ [n]) =
          if (distinct names).any n.pyEq then distinct names else distinct names ++ [n] := by
        rw [distinct, List.foldl_append]
        rfl
      rw [hstep]
      split_ifs with hany
      · refine ⟨fun m hm => List.mem_append_left _ (hmem m hm), ?_, hapart⟩
        rw [List.forall_mem_append, List.forall_mem_singleton]
        exact ⟨hcovers, List.any_eq_true.mp hany⟩
      · refine ⟨?_, ?_, ?_⟩
        · intro m hm
          rcases List.mem_append.mp hm with hm | hm
          · exact List.mem_append_left _ (hmem m hm)
          · exact List.mem_append_right _ hm
        · rw [List.forall_mem_append, List.forall_mem_singleton]
          refine ⟨fun m hm => ?_, n, List.mem_append_right _ (List.mem_singleton.mpr rfl),
            Json.pyEq_self h.2⟩
          obtain ⟨m', hm', heq⟩ := hcovers m hm
          exact ⟨m', List.mem_append_left _ hm', heq⟩
        · rw [List.pairwise_append]
          refine ⟨hapart, List.pairwise_singleton _ _, fun m hm n' hn' => ?_⟩
          obtain rfl := List.mem_singleton.mp hn'
          rw [Bool.eq_false_iff]
          exact fun heq => hany (List.any_eq_true.mpr ⟨m, hm, heq⟩)

/-! ## Sorting -/

/-- Values that Python can sort once repetitions are dropped. -/
def Sortable (names : List Json) : Prop :=
  (∀ a ∈ names, ∀ b ∈ names, a.pyEq b = true) ∨ (∀ n ∈ names, n.isStr = true) ∨
    ∀ n ∈ names, n.numKey?.isSome = true

theorem sortNames_length {names sorted : List Json} (h : sortNames names = .ok sorted) :
    sorted.length = names.length := by
  unfold sortNames at h
  split_ifs at h
  · rw [Except.ok.inj h]
  · rw [← Except.ok.inj h, List.length_insertionSort]
  · rw [← Except.ok.inj h, List.length_insertionSort]
  · exact absurd h (by simp)

/-- Sorting succeeds on at most one value, on strings and on numbers. -/
theorem sortNames_isOk_iff (names : List Json) :
    (∃ sorted, sortNames names = .ok sorted) ↔
      names.length ≤ 1 ∨ (∀ n ∈ names, n.isStr = true) ∨ ∀ n ∈ names, n.numKey?.isSome = true := by
  rw [← List.all_eq_true, ← List.all_eq_true]
  unfold sortNames
  split_ifs with hlen hstr hnum
  · exact iff_of_true ⟨_, rfl⟩ (Or.inl hlen)
  · exact iff_of_true ⟨_, rfl⟩ (Or.inr (Or.inl hstr))
  · exact iff_of_true ⟨_, rfl⟩ (Or.inr (Or.inr hnum))
  · refine iff_of_false (by simp) ?_
    rintro (h | h | h)
    · exact hlen h
    · exact hstr h
    · exact hnum h

theorem sortNames_error {names : List Json} {e : Exc} (h : sortNames names = .error e) :
    e.cls = .typeError := by
  unfold sortNames at h
  split_ifs at h
  rw [raise_eq_error, Except.error.injEq] at h
  rw [← h]

/-- Dropping repetitions changes neither how many values there are nor of which types. -/
theorem sortable_distinct_iff {names : List Json} (h : ∀ n ∈ names, n.hashable = true) :
    ((distinct names).length ≤ 1 ∨ (∀ n ∈ distinct names, n.isStr = true) ∨
      ∀ n ∈ distinct names, n.numKey?.isSome = true) ↔ Sortable names := by
  obtain ⟨hmem, hcovers, hapart⟩ := distinct_spec h
  -- two kept values are different, so one kept value means that all are equal
  have hone : (distinct names).length ≤ 1 ↔ ∀ a ∈ names, ∀ b ∈ names, a.pyEq b = true := by
    constructor
    · intro hlen a ha b hb
      obtain ⟨m, hm, ham⟩ := hcovers a ha
      obtain ⟨m', hm', hbm⟩ := hcovers b hb
      have hsame : m = m' := by
        match hd : distinct names, hlen with
        | [], _ => exact absurd hm (by simp [hd])
        | [x], _ =>
            rw [hd, List.mem_singleton] at hm hm'
            rw [hm, hm']
      subst hsame
      exact Json.pyEq_of_pyEq (h m (hmem m hm)) ham hbm
    · intro hall
      match hd : distinct names with
      | [] => exact Nat.zero_le 1
      | [_] => exact Nat.le_refl 1
      | m :: n :: seen =>
          rw [hd] at hapart hmem
          have hne := (List.pairwise_cons.mp hapart).1 n List.mem_cons_self
          rw [hall n (hmem n (by simp)) m (hmem m (by simp))] at hne
          exact absurd hne (by decide)
  -- a string equals strings only, and a number numbers only
  have hstr : (∀ n ∈ distinct names, n.isStr = true) ↔ ∀ n ∈ names, n.isStr = true := by
    refine ⟨fun hall n hn => ?_, fun hall n hn => hall n (hmem n hn)⟩
    obtain ⟨m, hm, heq⟩ := hcovers n hn
    obtain ⟨s, rfl⟩ := (Json.isStr_iff m).mp (hall m hm)
    rw [(Json.pyEq_str_iff n s).mp heq]
    rfl
  have hnum : (∀ n ∈ distinct names, n.numKey?.isSome = true) ↔
      ∀ n ∈ names, n.numKey?.isSome = true := by
    refine ⟨fun hall n hn => ?_, fun hall n hn => hall n (hmem n hn)⟩
    obtain ⟨m, hm, heq⟩ := hcovers n hn
    obtain ⟨key, hkey⟩ := Option.isSome_iff_exists.mp (hall m hm)
    rw [(Json.pyEq_number_iff hkey n).mp heq]
    rfl
  rw [hone, hstr, hnum]
  rfl

/-! ## What the check returns -/

/-- The check of the names succeeds when the repeated ones can be in a set and be sorted. -/
theorem duplicatedNames_isOk_iff (names : List Json) :
    (∃ duplicated, duplicatedNames names = .ok duplicated) ↔
      (∀ n ∈ repeatedNames names, n.hashable = true) ∧ Sortable (repeatedNames names) := by
  by_cases h : ∀ n ∈ repeatedNames names, n.hashable = true
  · rw [duplicatedNames_of_hashable h, sortNames_isOk_iff, sortable_distinct_iff h]
    exact ⟨fun hsort => ⟨h, hsort⟩, And.right⟩
  · obtain ⟨n, hn, hhash⟩ := not_forall₂.mp h
    obtain ⟨msg, hraise⟩ := duplicatedNames_of_unhashable hn (Bool.eq_false_iff.mpr hhash)
    rw [hraise]
    exact iff_of_false (by simp) fun hboth => h hboth.1

theorem duplicatedNames_error {names : List Json} {e : Exc}
    (he : duplicatedNames names = .error e) : e.cls = .typeError := by
  by_cases h : ∀ n ∈ repeatedNames names, n.hashable = true
  · rw [duplicatedNames_of_hashable h] at he
    exact sortNames_error he
  · obtain ⟨n, hn, hhash⟩ := not_forall₂.mp h
    obtain ⟨msg, hraise⟩ := duplicatedNames_of_unhashable hn (Bool.eq_false_iff.mpr hhash)
    rw [hraise, raise_eq_error, Except.error.injEq] at he
    rw [← he]

/-- Nothing is reported exactly when no name is repeated. -/
theorem duplicatedNames_eq_nil_iff (names : List Json) :
    duplicatedNames names = .ok [] ↔ repeatedNames names = [] := by
  constructor
  · intro hnil
    by_contra hne
    by_cases h : ∀ n ∈ repeatedNames names, n.hashable = true
    · rw [duplicatedNames_of_hashable h] at hnil
      -- sorting keeps the length, and the set has a value if any name is repeated
      have hempty : distinct (repeatedNames names) = [] :=
        List.length_eq_zero_iff.mp (sortNames_length hnil).symm
      obtain ⟨n, hn⟩ := List.exists_mem_of_ne_nil _ hne
      obtain ⟨m, hm, -⟩ := (distinct_spec h).covers n hn
      rw [hempty] at hm
      exact absurd hm List.not_mem_nil
    · obtain ⟨n, hn, hhash⟩ := not_forall₂.mp h
      obtain ⟨msg, hraise⟩ := duplicatedNames_of_unhashable hn (Bool.eq_false_iff.mpr hhash)
      rw [hraise] at hnil
      exact absurd hnil (by simp)
  · intro hnone
    have h : ∀ n ∈ repeatedNames names, n.hashable = true := by
      rw [hnone]
      exact fun n hn => absurd hn List.not_mem_nil
    rw [duplicatedNames_of_hashable h, hnone]
    rfl

theorem repeatedNames_str_eq_nil_iff (names : List String) :
    repeatedNames (names.map .str) = [] ↔ names.Nodup := by
  -- on strings the count of the source is that of the list
  have hcount (name : String) : ((names.map Json.str).filter fun m =>
      (Json.str name).pyEq m).length = names.count name := by
    rw [List.filter_map, List.length_map, List.count, List.countP_eq_length_filter]
    congr 1
    apply List.filter_congr
    intro m _
    rw [Function.comp_apply, Json.pyEq_str]
    exact decide_eq_decide.mpr eq_comm
  rw [repeatedNames, List.filter_eq_nil_iff, List.forall_mem_map, List.nodup_iff_count_le_one]
  simp only [hcount, decide_eq_true_eq, not_lt]
  constructor
  · intro h name
    by_cases hmem : name ∈ names
    · exact h name hmem
    · rw [List.count_eq_zero_of_not_mem hmem]
      exact Nat.zero_le 1
  · exact fun h name _ => h name

end ArgoExporter.MetaSchema
