/-
  ArgoExporter.Lib.Counter

  Counting keys into a dictionary, one key after another.  The dictionary has an
  entry for exactly the keys that occurred (`mem_tally_iff`), its counts add up
  to the number of keys counted (`sum_tally`), and sorting its items leaves the
  keys strictly increasing (`pairwise_sortedItems`).
-/

import ArgoExporter.Lib.OrderedDict
import Mathlib.Algebra.BigOperators.Group.List.Lemmas
import Mathlib.Algebra.GroupWithZero.Nat
import Mathlib.Data.List.Dedup
import Mathlib.Data.List.Induction
import Mathlib.Data.List.Sort
import Mathlib.Data.Prod.Lex

namespace ArgoExporter.Lib.Counter

variable {κ : Type*} [DecidableEq κ]

/-! ## Counting -/

/-- One more occurrence of a key. -/
def add (counts : OrderedDict κ Nat) (k : κ) : OrderedDict κ Nat :=
  counts.set k ((counts.get? k).getD 0 + 1)

/-- The occurrences of every key of a list. -/
def tally (keys : List κ) : OrderedDict κ Nat := keys.foldl add OrderedDict.empty

theorem tally_concat (keys : List κ) (k : κ) : tally (keys ++ [k]) = add (tally keys) k := by
  rw [tally, List.foldl_append]
  rfl

theorem get?_tally (keys : List κ) (k : κ) :
    (tally keys).get? k = if k ∈ keys then some (keys.count k) else none := by
  induction keys using List.reverseRecOn with
  | nil => rfl
  | append_singleton keys last ih =>
      rw [tally_concat, add, OrderedDict.get?_set]
      -- the key counted last, or another one
      by_cases hlast : k = last
      · subst hlast
        rw [if_pos rfl, if_pos (by simp), ih, List.count_append, List.count_singleton_self]
        by_cases hmem : k ∈ keys
        · rw [if_pos hmem, Option.getD_some]
        · rw [if_neg hmem, Option.getD_none, List.count_eq_zero_of_not_mem hmem]
      · have hone : [last].count k = 0 := List.count_eq_zero_of_not_mem (by simpa using hlast)
        have hcount : (keys ++ [last]).count k = keys.count k := by
          rw [List.count_append, hone, Nat.add_zero]
        have hmem : k ∈ keys ++ [last] ↔ k ∈ keys := by simp [hlast]
        rw [if_neg hlast, ih, hcount]
        simp only [hmem]

/-- A key has an entry when it occurred, with the number of its occurrences. -/
theorem mem_tally_iff {keys : List κ} {k : κ} {n : Nat} :
    (k, n) ∈ (tally keys).entries ↔ 0 < n ∧ n = keys.count k := by
  rw [← OrderedDict.get?_eq_some_iff, get?_tally]
  by_cases hmem : k ∈ keys
  · have hpos : 0 < keys.count k := List.count_pos_iff.mpr hmem
    rw [if_pos hmem, Option.some.injEq]
    refine ⟨fun h => ⟨?_, h.symm⟩, fun h => h.2.symm⟩
    rw [← h]
    exact hpos
  · rw [if_neg hmem, List.count_eq_zero_of_not_mem hmem]
    constructor
    · intro h
      exact absurd h (by simp)
    · rintro ⟨hpos, rfl⟩
      exact absurd hpos (Nat.lt_irrefl 0)

theorem mem_keys_tally {keys : List κ} {k : κ} : k ∈ (tally keys).keys ↔ k ∈ keys := by
  rw [OrderedDict.keys, List.mem_map]
  constructor
  · rintro ⟨⟨k', n⟩, hentry, rfl⟩
    obtain ⟨hpos, rfl⟩ := mem_tally_iff.mp hentry
    exact List.count_pos_iff.mp hpos
  · intro hmem
    exact ⟨(k, keys.count k), mem_tally_iff.mpr ⟨List.count_pos_iff.mpr hmem, rfl⟩, rfl⟩

/-- The keys of a tally are those that occurred, each once. -/
theorem keys_tally_perm (keys : List κ) : (tally keys).keys.Perm keys.dedup := by
  refine (List.perm_ext_iff_of_nodup (tally keys).nodupKeys keys.nodup_dedup).mpr fun k => ?_
  rw [List.mem_dedup]
  exact mem_keys_tally

theorem values_tally (keys : List κ) :
    (tally keys).values = (tally keys).keys.map fun k => keys.count k := by
  rw [OrderedDict.values, OrderedDict.keys, List.map_map]
  apply List.map_congr_left
  intro entry hentry
  exact (mem_tally_iff.mp hentry).2

/-- The counts add up to the number of keys counted. -/
theorem sum_tally (keys : List κ) : (tally keys).values.sum = keys.length := by
  rw [values_tally, ((keys_tally_perm keys).map _).sum_eq]
  exact List.sum_map_count_dedup_eq_length keys

/-! ## Sorted items -/

section Sorted

variable {κ : Type*} [LinearOrder κ]

/-- `dict(sorted(counts.items()))`. -/
def sortedItems (counts : OrderedDict κ Nat) : List (κ × Nat) :=
  counts.entries.insertionSort fun a b => toLex a ≤ toLex b

theorem sortedItems_perm (counts : OrderedDict κ Nat) :
    (sortedItems counts).Perm counts.entries :=
  List.perm_insertionSort _ _

theorem sum_sortedItems (counts : OrderedDict κ Nat) :
    ((sortedItems counts).map Prod.snd).sum = counts.values.sum :=
  ((sortedItems_perm counts).map Prod.snd).sum_eq

/-- Two items of one dictionary differ in their keys, so the keys decide their order. -/
theorem pairwise_sortedItems (counts : OrderedDict κ Nat) :
    ((sortedItems counts).map Prod.fst).Pairwise (· < ·) := by
  have hnodup : ((sortedItems counts).map Prod.fst).Nodup :=
    ((sortedItems_perm counts).map Prod.fst).nodup_iff.mpr counts.nodupKeys
  have hsorted : (sortedItems counts).Pairwise fun a b => toLex a ≤ toLex b := by
    have htotal : Std.Total fun a b : κ × Nat => toLex a ≤ toLex b :=
      ⟨fun a b => le_total (toLex a) (toLex b)⟩
    have htrans : IsTrans (κ × Nat) fun a b => toLex a ≤ toLex b :=
      ⟨fun a b c hab hbc => le_trans hab hbc⟩
    exact List.pairwise_insertionSort _ _
  rw [List.pairwise_map]
  refine (hsorted.and (List.pairwise_map.mp hnodup)).imp ?_
  rintro ⟨k, m⟩ ⟨k', n⟩ ⟨hle, hne⟩
  rcases (Prod.Lex.toLex_le_toLex).mp hle with hlt | ⟨heq, _⟩
  · exact hlt
  · exact absurd heq hne

end Sorted

end ArgoExporter.Lib.Counter
