/-
  ArgoExporter.Lib.Provenance

  Where the values of a shared store come from.  Writers put values into named
  slots, each write on behalf of some batch; a log of the writes that took
  effect, however they interleave, explains every value that is ever found in
  the store.  When values carry the tag of their batch, a value found with a tag
  was written by that batch.
-/

import Mathlib.Data.List.Basic

namespace ArgoExporter.Lib.Provenance

/-- A write of `value` into `slot` by batch `tag`. -/
structure Write (Tag Slot Value : Type*) where
  tag : Tag
  slot : Slot
  value : Value

variable {Tag Slot Value : Type*} {initial : Slot → Option Value}
  {log log' : List (Write Tag Slot Value)} {store : Slot → Option Value} {slot : Slot}
  {value : Value}

/-- `value` was in `slot` from the start, or a logged write put it there. -/
def Explained (initial : Slot → Option Value) (log : List (Write Tag Slot Value)) (slot : Slot)
    (value : Value) : Prop :=
  initial slot = some value ∨ ∃ tag, ⟨tag, slot, value⟩ ∈ log

/-- Every value of the store is explained. -/
def Accounts (initial : Slot → Option Value) (log : List (Write Tag Slot Value))
    (store : Slot → Option Value) : Prop :=
  ∀ slot value, store slot = some value → Explained initial log slot value

theorem Explained.mono (h : Explained initial log slot value) (hsub : log ⊆ log') :
    Explained initial log' slot value := by
  rcases h with h | ⟨tag, h⟩
  · exact Or.inl h
  · exact Or.inr ⟨tag, hsub h⟩

theorem accounts_initial : Accounts initial ([] : List (Write Tag Slot Value)) initial :=
  fun _ _ h => Or.inl h

/-- A logged write keeps the account. -/
theorem Accounts.write [DecidableEq Slot] (h : Accounts initial log store) (tag : Tag)
    (slot : Slot) (value : Value) :
    Accounts initial (⟨tag, slot, value⟩ :: log)
      (fun s => if s = slot then some value else store s) := by
  intro s v hv
  dsimp only at hv
  by_cases hs : s = slot
  · rw [if_pos hs, Option.some.injEq] at hv
    subst hs hv
    exact Or.inr ⟨tag, List.mem_cons_self⟩
  · rw [if_neg hs] at hv
    exact (h s v hv).mono (List.subset_cons_self _ _)

/-- A tagged value that no initial object could be was written by the batch of its tag. -/
theorem Explained.logged {tagOf : Slot → Value → Option Tag} {tag : Tag}
    (h : Explained initial log slot value)
    (hlog : ∀ w ∈ log, tagOf w.slot w.value = some w.tag)
    (hinitial : initial slot = some value → tagOf slot value ≠ some tag)
    (htag : tagOf slot value = some tag) : ⟨tag, slot, value⟩ ∈ log := by
  rcases h with h | ⟨tag', h⟩
  · exact absurd htag (hinitial h)
  · have htag' : tagOf slot value = some tag' := hlog _ h
    rw [htag, Option.some.injEq] at htag'
    rw [htag']
    exact h

/-! ## The newest write -/

section Newest

variable [DecidableEq Slot]

/-- Each slot has the value of its newest write, or what it had at the start. -/
def Replays (initial : Slot → Option Value) (log : List (Write Tag Slot Value))
    (store : Slot → Option Value) : Prop :=
  ∀ slot, store slot = ((log.find? fun w => w.slot = slot).map Write.value).or (initial slot)

theorem replays_initial : Replays initial ([] : List (Write Tag Slot Value)) initial :=
  fun _ => rfl

theorem Replays.write (h : Replays initial log store) (tag : Tag) (slot : Slot) (value : Value) :
    Replays initial (⟨tag, slot, value⟩ :: log)
      (fun s => if s = slot then some value else store s) := by
  intro s
  dsimp only
  by_cases hs : s = slot
  · rw [if_pos hs, List.find?_cons_of_pos (by simp [hs])]
    rfl
  · rw [if_neg hs, List.find?_cons_of_neg (by simpa using Ne.symm hs), h s]

/-- A slot that nobody wrote since a write of it still has the value of that write. -/
theorem Replays.untouched {later earlier : List (Write Tag Slot Value)} {w : Write Tag Slot Value}
    (h : Replays initial (later ++ w :: earlier) store) (hlater : ∀ w' ∈ later, w'.slot ≠ w.slot) :
    store w.slot = some w.value := by
  have hnone : later.find? (fun w' => w'.slot = w.slot) = none :=
    List.find?_eq_none.mpr fun w' hw' => by simpa using hlater w' hw'
  rw [h w.slot, List.find?_append, hnone, Option.none_or, List.find?_cons_of_pos (by simp)]
  rfl

/-- A slot that was written has the value of a write among the latest ones. -/
theorem Replays.touched {later earlier : List (Write Tag Slot Value)}
    (h : Replays initial (later ++ earlier) store) (hlater : ∃ w' ∈ later, w'.slot = slot) :
    ∃ w ∈ later, w.slot = slot ∧ store slot = some w.value := by
  obtain ⟨w', hw', hslot⟩ := hlater
  have hsome : (later.find? fun w => w.slot = slot).isSome :=
    List.find?_isSome.mpr ⟨w', hw', by simpa using hslot⟩
  obtain ⟨w, hw⟩ := Option.isSome_iff_exists.mp hsome
  refine ⟨w, List.mem_of_find?_eq_some hw, by simpa using List.find?_some hw, ?_⟩
  rw [h slot, List.find?_append, hw]
  rfl

end Newest

end ArgoExporter.Lib.Provenance
