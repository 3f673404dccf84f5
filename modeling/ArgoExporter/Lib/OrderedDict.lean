/-
  ArgoExporter.Lib.OrderedDict

  Insertion-ordered dictionaries.  Assigning to a present key overwrites the
  value where it stands, assigning to a new key appends it.  The structure
  carries the distinctness of its keys, so a key has at most one value and
  `get?` and membership in `entries` say the same thing.
-/

import Mathlib.Data.List.Nodup
import Mathlib.Data.List.Lookmap

namespace ArgoExporter.Lib

/-- A finite map that remembers the order in which its keys were first set. -/
structure OrderedDict (κ α : Type*) where
  entries : List (κ × α)
  nodupKeys : (entries.map Prod.fst).Nodup

namespace OrderedDict

variable {κ α : Type*}

/-- The dictionary without entries. -/
def empty : OrderedDict κ α := ⟨[], List.nodup_nil⟩

/-- Keys in insertion order. -/
def keys (d : OrderedDict κ α) : List κ := d.entries.map Prod.fst

/-- Values in the order of their keys. -/
def values (d : OrderedDict κ α) : List α := d.entries.map Prod.snd

variable [DecidableEq κ]

/-- Value of a key, if it is set. -/
def get? (d : OrderedDict κ α) (k : κ) : Option α :=
  (d.entries.find? fun e => e.1 = k).map Prod.snd

/-- The entries after assigning `v` to `k`. -/
def setEntries (k : κ) (v : α) (entries : List (κ × α)) : List (κ × α) :=
  if k ∈ entries.map Prod.fst then
    entries.map fun e => if e.1 = k then (k, v) else e
  else entries ++ [(k, v)]

/-- Overwriting values leaves the keys as they are. -/
theorem map_fst_overwrite (k : κ) (v : α) (entries : List (κ × α)) :
    (entries.map fun e => if e.1 = k then (k, v) else e).map Prod.fst
      = entries.map Prod.fst := by
  rw [List.map_map]
  apply List.map_congr_left
  intro e _
  by_cases h : e.1 = k
  · simp [h]
  · simp [h]

theorem setEntries_nodup (k : κ) (v : α) {entries : List (κ × α)}
    (h : (entries.map Prod.fst).Nodup) : ((setEntries k v entries).map Prod.fst).Nodup := by
  unfold setEntries
  split
  · rw [map_fst_overwrite]
    exact h
  · rename_i hk
    rw [List.map_append, List.nodup_append]
    refine ⟨h, List.nodup_singleton k, ?_⟩
    rintro a ha b hb rfl
    have hak : a = k := by simpa using hb
    exact hk (hak ▸ ha)

/-- Assign `v` to `k`. -/
def set (d : OrderedDict κ α) (k : κ) (v : α) : OrderedDict κ α :=
  ⟨setEntries k v d.entries, setEntries_nodup k v d.nodupKeys⟩

/-- Assign a list of bindings, one after another. -/
def setAll (d : OrderedDict κ α) (l : List (κ × α)) : OrderedDict κ α :=
  l.foldl (fun d e => d.set e.1 e.2) d

@[simp] theorem get?_empty (k : κ) : (empty : OrderedDict κ α).get? k = none := rfl

/-- In a list of entries with distinct keys, looking a key up finds its entry. -/
theorem lookup_eq_some_iff {entries : List (κ × α)} (hnd : (entries.map Prod.fst).Nodup) (k : κ)
    (v : α) : (entries.find? fun e => e.1 = k).map Prod.snd = some v ↔ (k, v) ∈ entries := by
  induction entries with
  | nil => simp
  | cons e es ih =>
      rw [List.map_cons, List.nodup_cons] at hnd
      rw [List.find?_cons, List.mem_cons]
      by_cases hk : e.1 = k
      · have hnot : (k, v) ∉ es := fun hmem =>
          hnd.1 (hk ▸ List.mem_map_of_mem (f := Prod.fst) hmem)
        simp only [hk, decide_true, Option.map_some, Option.some.injEq, hnot, or_false]
        refine ⟨fun h => Prod.ext hk.symm h.symm, fun h => ?_⟩
        rw [← h]
      · have hne : (k, v) ≠ e := fun h => hk (by rw [← h])
        simp only [hk, decide_false, hne, false_or]
        exact ih hnd.2

theorem get?_eq_some_iff (d : OrderedDict κ α) (k : κ) (v : α) :
    d.get? k = some v ↔ (k, v) ∈ d.entries :=
  lookup_eq_some_iff d.nodupKeys k v

theorem mem_values_iff (d : OrderedDict κ α) (v : α) :
    v ∈ d.values ↔ ∃ k, d.get? k = some v := by
  simp only [values, List.mem_map, get?_eq_some_iff]
  constructor
  · rintro ⟨⟨k, w⟩, hmem, rfl⟩
    exact ⟨k, hmem⟩
  · rintro ⟨k, hmem⟩
    exact ⟨(k, v), hmem, rfl⟩

theorem get?_set (d : OrderedDict κ α) (k : κ) (v : α) (k' : κ) :
    (d.set k v).get? k' = if k' = k then some v else d.get? k' := by
  apply Option.ext
  intro w
  rw [get?_eq_some_iff]
  show (k', w) ∈ setEntries k v d.entries ↔ _
  unfold setEntries
  -- the key is overwritten in place, or appended
  by_cases hmem : k ∈ d.entries.map Prod.fst
  · rw [if_pos hmem, List.mem_map]
    by_cases hk : k' = k
    · rw [if_pos hk, Option.some.injEq]
      constructor
      · rintro ⟨e, _, he⟩
        by_cases h : e.1 = k
        · rw [if_pos h] at he
          exact (Prod.mk.inj he).2
        · rw [if_neg h] at he
          exact absurd (by rw [he]; exact hk) h
      · rintro rfl
        obtain ⟨e, he, hek⟩ := List.mem_map.mp hmem
        exact ⟨e, he, by rw [if_pos hek, hk]⟩
    · rw [if_neg hk, get?_eq_some_iff]
      constructor
      · rintro ⟨e, he, hek⟩
        by_cases h : e.1 = k
        · rw [if_pos h] at hek
          exact absurd (Prod.mk.inj hek).1.symm hk
        · rw [if_neg h] at hek
          exact hek ▸ he
      · intro h
        exact ⟨(k', w), h, if_neg hk⟩
  · rw [if_neg hmem, List.mem_append, List.mem_singleton]
    by_cases hk : k' = k
    · subst hk
      have hnot : (k', w) ∉ d.entries := fun h => hmem (List.mem_map_of_mem (f := Prod.fst) h)
      simp only [hnot, false_or, Prod.mk.injEq, true_and, if_true, Option.some.injEq]
      exact eq_comm
    · simp only [Prod.mk.injEq, hk, false_and, or_false, if_false, get?_eq_some_iff]

@[simp] theorem setAll_nil (d : OrderedDict κ α) : d.setAll [] = d := rfl

@[simp] theorem setAll_cons (d : OrderedDict κ α) (e : κ × α) (l : List (κ × α)) :
    d.setAll (e :: l) = (d.set e.1 e.2).setAll l := rfl

/-- After a list of assignments a key holds its last binding, or what it held before. -/
theorem get?_setAll (d : OrderedDict κ α) (l : List (κ × α)) (k : κ) :
    (d.setAll l).get? k =
      ((l.filter fun e => e.1 = k).getLast?.map Prod.snd).or (d.get? k) := by
  induction l generalizing d with
  | nil => rfl
  | cons e l ih =>
      rw [setAll_cons, ih, get?_set]
      by_cases hk : e.1 = k
      · rw [List.filter_cons_of_pos (by simpa using hk), if_pos hk.symm, List.getLast?_cons]
        cases (l.filter fun e => e.1 = k).getLast? <;> rfl
      · rw [List.filter_cons_of_neg (by simpa using hk), if_neg (Ne.symm hk)]

end OrderedDict

end ArgoExporter.Lib
