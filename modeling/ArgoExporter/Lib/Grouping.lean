/-
  ArgoExporter.Lib.Grouping

  Groups of a list by an optional key.  The groups of distinct keys partition
  the items that have one (`sum_countP_group`), and when the keys of one grouping
  determine those of another, the finer groups of a coarse key partition its
  group (`sum_countP_group_of_refines`).
-/

import Mathlib.Algebra.BigOperators.Group.List.Basic
import Mathlib.Algebra.GroupWithZero.Nat
import Mathlib.Data.List.Nodup

namespace ArgoExporter.Lib.Grouping

variable {α κ μ : Type*} [DecidableEq κ] [DecidableEq μ]

/-- The items with this key. -/
def group (key : α → Option κ) (k : κ) (items : List α) : List α :=
  items.filter fun a => key a = some k

theorem mem_group {key : α → Option κ} {k : κ} {items : List α} {a : α} :
    a ∈ group key k items ↔ a ∈ items ∧ key a = some k := by
  rw [group, List.mem_filter, decide_eq_true_eq]

theorem group_append_singleton (key : α → Option κ) (k : κ) (items : List α) (a : α) :
    group key k (items ++ [a]) =
      if key a = some k then group key k items ++ [a] else group key k items := by
  unfold group
  rw [List.filter_append]
  split_ifs with h
  · simp [h]
  · simp [h]

theorem countP_group (key : α → Option κ) (k : κ) (items : List α) (p : α → Bool) :
    (group key k items).countP p = items.countP fun a => p a && decide (key a = some k) :=
  List.countP_filter

/-- An item is in the group of its key and in no other. -/
theorem sum_indicator {keys : List κ} (hnodup : keys.Nodup) (key : Option κ) :
    (keys.map fun k => if key = some k then 1 else 0).sum =
      if ∃ k ∈ keys, key = some k then 1 else 0 := by
  induction keys with
  | nil => simp
  | cons k keys ih =>
      obtain ⟨hk, hnodup⟩ := List.nodup_cons.mp hnodup
      rw [List.map_cons, List.sum_cons, ih hnodup]
      by_cases h : key = some k
      · have hother : ¬ ∃ k' ∈ keys, key = some k' := by
          rintro ⟨k', hk', h'⟩
          rw [h, Option.some.injEq] at h'
          exact hk (h' ▸ hk')
        rw [if_pos h, if_neg hother, if_pos ⟨k, List.mem_cons_self, h⟩]
      · simp [h]

/-- The groups of distinct keys partition the items that have a key. -/
theorem sum_countP_group (key : α → Option κ) {keys : List κ} (hnodup : keys.Nodup)
    {items : List α} (hcover : ∀ a ∈ items, ∀ k, key a = some k → k ∈ keys) (p : α → Bool) :
    (keys.map fun k => (group key k items).countP p).sum =
      items.countP fun a => p a && (key a).isSome := by
  simp only [countP_group]
  induction items with
  | nil => simp
  | cons a items ih =>
      have hrest := ih fun b hb => hcover b (List.mem_cons_of_mem a hb)
      -- the new item is counted under the one key it has
      have hone : (keys.map fun k => if key a = some k then 1 else 0).sum =
          if (key a).isSome then 1 else 0 := by
        rw [sum_indicator hnodup]
        congr 1
        rw [Option.isSome_iff_exists, eq_iff_iff]
        exact ⟨fun ⟨k, _, h⟩ => ⟨k, h⟩, fun ⟨k, h⟩ => ⟨k, hcover a List.mem_cons_self k h, h⟩⟩
      simp only [List.countP_cons, List.sum_map_add, hrest]
      congr 1
      cases p a with
      | false => simp
      | true => simpa using hone

/-- Where the fine keys determine the coarse ones, the fine groups of a coarse key partition its
    group. -/
theorem sum_countP_group_of_refines {fine : α → Option κ} {coarse : α → Option μ}
    {parent : κ → Option μ} {keys : List κ} (hnodup : keys.Nodup) {items : List α}
    (hcover : ∀ a ∈ items, ∀ k, fine a = some k → k ∈ keys)
    (hrefines : ∀ a ∈ items, coarse a = (fine a).bind parent) (m : μ) (p : α → Bool) :
    ((keys.filter fun k => parent k = some m).map fun k => (group fine k items).countP p).sum =
      (group coarse m items).countP p := by
  have hmember {a : α} (ha : a ∈ items) {k : κ} (hk : fine a = some k) :
      coarse a = some m ↔ parent k = some m := by
    rw [hrefines a ha, hk, Option.bind_some]
  -- inside the coarse group every item has a fine key, and one of this parent
  have hinside {k : κ} (hk : k ∈ keys.filter fun k => parent k = some m) :
      (group fine k items).countP p = (group fine k (group coarse m items)).countP p := by
    have hparent : parent k = some m := of_decide_eq_true (List.mem_filter.mp hk).2
    rw [group, group, group, List.filter_filter]
    congr 1
    apply List.filter_congr
    intro a ha
    rw [Bool.eq_iff_iff, Bool.and_eq_true, decide_eq_true_eq, decide_eq_true_eq]
    exact ⟨fun h => ⟨h, (hmember ha h).mpr hparent⟩, fun h => h.1⟩
  rw [List.map_congr_left fun k hk => hinside hk, sum_countP_group fine (hnodup.filter _)]
  · apply List.countP_congr
    intro a ha
    obtain ⟨hmem, hcoarse⟩ := mem_group.mp ha
    have hsome : (fine a).isSome = true := by
      rw [hrefines a hmem] at hcoarse
      obtain ⟨k, hk, _⟩ := Option.bind_eq_some_iff.mp hcoarse
      rw [hk]
      rfl
    rw [hsome, Bool.and_true]
  · intro a ha k hk
    obtain ⟨hmem, hcoarse⟩ := mem_group.mp ha
    exact List.mem_filter.mpr ⟨hcover a hmem k hk, decide_eq_true ((hmember hmem hk).mp hcoarse)⟩

end ArgoExporter.Lib.Grouping
