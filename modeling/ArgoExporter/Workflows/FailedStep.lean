/-
  ArgoExporter.Workflows.FailedStep

  Which node `failed_step` reports: the failing pod that comes first in the
  order of selection keys, the first in the map among equal ones.
-/

import ArgoExporter.ParquetRoundTrip
import ArgoExporter.Workflows

namespace ArgoExporter.Workflows

open ArgoExporter.Py
open ArgoExporter.ParquetIo

/-- The minimum of a list is strictly below everything before it and at most everything after. -/
theorem argmin_split {α β : Type*} [LinearOrder β] {f : α → β} {l : List α} {m : α}
    (h : l.argmin f = some m) :
    ∃ before after, l = before ++ m :: after ∧ (∀ a ∈ before, f m < f a) ∧
      ∀ a ∈ after, f m ≤ f a := by
  induction l using List.reverseRecOn generalizing m with
  | nil => exact absurd h (by simp)
  | append_singleton l a ih =>
      rw [List.argmin_concat] at h
      cases hl : l.argmin f with
      | none =>
          rw [hl, Option.some.injEq] at h
          rw [List.argmin_eq_none] at hl
          subst hl h
          exact ⟨[], [], rfl, by simp, by simp⟩
      | some c =>
          obtain ⟨before, after, rfl, hbefore, hafter⟩ := ih hl
          rw [hl] at h
          dsimp only at h
          -- the appended element wins only when it is strictly smaller
          split at h
          · rename_i hlt
            rw [Option.some.injEq] at h
            subst h
            refine ⟨before ++ c :: after, [], rfl, fun x hx => ?_, by simp⟩
            rcases List.mem_append.mp hx with hx | hx
            · exact lt_trans hlt (hbefore x hx)
            · rcases List.mem_cons.mp hx with rfl | hx
              · exact hlt
              · exact lt_of_lt_of_le hlt (hafter x hx)
          · rename_i hle
            rw [Option.some.injEq] at h
            subst h
            refine ⟨before, after ++ [a], by simp, hbefore, fun x hx => ?_⟩
            rcases List.mem_append.mp hx with hx | hx
            · exact hafter x hx
            · rw [List.mem_singleton.mp hx]
              exact not_lt.mp hle

/-! ## Order of failing nodes -/

/-- Both nodes have a selection key, and the first one's is smaller. -/
def Precedes (a b : String × Json) : Prop :=
  ∃ ka kb, selectionKey a = .ok ka ∧ selectionKey b = .ok kb ∧ ka < kb

def failures (nodes : List (String × Json)) : List (String × Json) :=
  nodes.filter fun e => isFailingPod e.2

/-- The failing pod that no other one precedes, and that precedes those before it in the map. -/
def EarliestFailure (nodes : List (String × Json)) (e : String × Json) : Prop :=
  ∃ before after, failures nodes = before ++ e :: after ∧ (∀ a ∈ before, Precedes e a) ∧
    ∀ a ∈ after, ¬ Precedes a e

/-- At most one node is the earliest failure. -/
theorem EarliestFailure.unique {nodes : List (String × Json)} {e e' : String × Json}
    (h : EarliestFailure nodes e) (h' : EarliestFailure nodes e') : e = e' := by
  obtain ⟨before, after, hsplit, hbefore, hafter⟩ := h
  obtain ⟨before', after', hsplit', hbefore', hafter'⟩ := h'
  rw [hsplit] at hsplit'
  -- if they were different, each would precede the other
  rcases List.append_eq_append_iff.mp hsplit' with ⟨mid, hb, ha⟩ | ⟨mid, hb, ha⟩
  · cases mid with
    | nil => exact (List.cons.inj ha).1
    | cons x mid =>
        obtain ⟨rfl, hmid⟩ := List.cons.inj ha
        have h1 : Precedes e' e := hbefore' e (by rw [hb]; simp)
        exact absurd h1 (hafter e' (by rw [hmid]; simp))
  · cases mid with
    | nil => exact (List.cons.inj ha).1.symm
    | cons x mid =>
        obtain ⟨rfl, hmid⟩ := List.cons.inj ha
        have h1 : Precedes e e' := hbefore e' (by rw [hb]; simp)
        exact absurd h1 (hafter' e (by rw [hmid]; simp))

/-! ## The reported node -/

variable {Bytes : Type} {py : Platform Bytes}

/-- Nodes paired with their selection keys. -/
def withKeys (nodes : List (String × Json)) : Except Exc (List (SelectionKey × String × Json)) :=
  nodes.mapM fun e => do return (← selectionKey e, e)

theorem withKeys_eq_ok {nodes : List (String × Json)} {keyed : List (SelectionKey × String × Json)}
    (h : withKeys nodes = .ok keyed) :
    keyed.map Prod.snd = nodes ∧ ∀ k ∈ keyed, selectionKey k.2 = .ok k.1 := by
  have hall := forall₂_of_mapM_ok h
  clear h
  induction hall with
  | nil => exact ⟨rfl, by simp⟩
  | @cons e k nodes keyed hk _ ih =>
      obtain ⟨key, hkey, hret⟩ := bind_eq_ok.mp hk
      rw [pure_eq_ok, Except.ok.injEq] at hret
      subst hret
      refine ⟨by rw [List.map_cons, ih.1], fun k' hk' => ?_⟩
      rcases List.mem_cons.mp hk' with rfl | hk'
      · exact hkey
      · exact ih.2 k' hk'

theorem withKeys_ok_iff {nodes : List (String × Json)} :
    (∃ keyed, withKeys nodes = .ok keyed) ↔ ∀ e ∈ nodes, ∃ key, selectionKey e = .ok key := by
  constructor
  · rintro ⟨keyed, h⟩ e he
    obtain ⟨hmap, hkeys⟩ := withKeys_eq_ok h
    rw [← hmap] at he
    obtain ⟨k, hk, rfl⟩ := List.mem_map.mp he
    exact ⟨k.1, hkeys k hk⟩
  · intro h
    induction nodes with
    | nil => exact ⟨[], rfl⟩
    | cons e nodes ih =>
        obtain ⟨key, hkey⟩ := h e List.mem_cons_self
        obtain ⟨keyed, hkeyed⟩ := ih fun e' he' => h e' (List.mem_cons_of_mem e he')
        refine ⟨(key, e) :: keyed, ?_⟩
        unfold withKeys at hkeyed ⊢
        rw [List.mapM_cons, hkey, ok_bind, pure_eq_ok, ok_bind, hkeyed]
        rfl

/-- The name of a failing node: its display name or, without one, its name. -/
def stepName (node : Json) : Json := (node.get "displayName").or (node.get "name")

/-- `failed_step` reports nothing when no pod failed, else the earliest failure. -/
theorem failedStep_eq_ok {wf : Json} {name message : Json}
    (h : failedStep py wf = .ok (name, message)) :
    ∃ nodes, nodesOf py (orEmptyDict (wf.get "status")) = .ok nodes ∧
      (failures nodes = [] ∧ name = .null ∧ message = .null ∨
        ∃ e, EarliestFailure nodes e ∧ name = stepName e.2 ∧ message = e.2.get "message") := by
  unfold failedStep at h
  obtain ⟨nodes, hnodes, h⟩ := bind_eq_ok.mp h
  obtain ⟨keyed, hkeyed, h⟩ := bind_eq_ok.mp h
  have hwith : withKeys (failures nodes) = .ok keyed := hkeyed
  obtain ⟨hmap, hkeys⟩ := withKeys_eq_ok hwith
  refine ⟨nodes, hnodes, ?_⟩
  -- without a failing pod there is no least key
  cases hmin : keyed.argmin Prod.fst with
  | none =>
      simp only [hmin, pure_eq_ok, Except.ok.injEq, Prod.mk.injEq] at h
      rw [List.argmin_eq_none] at hmin
      rw [hmin] at hmap
      exact Or.inl ⟨hmap.symm, h.1.symm, h.2.symm⟩
  | some k =>
      obtain ⟨key, e⟩ := k
      simp only [hmin, pure_eq_ok, Except.ok.injEq, Prod.mk.injEq] at h
      obtain ⟨before, after, hsplit, hbefore, hafter⟩ := argmin_split hmin
      have hke : selectionKey e = .ok key := hkeys (key, e) (by rw [hsplit]; simp)
      refine Or.inr ⟨e, ⟨before.map Prod.snd, after.map Prod.snd, ?_, ?_, ?_⟩, h.1.symm, h.2.symm⟩
      · rw [← hmap, hsplit, List.map_append, List.map_cons]
      · intro a ha
        obtain ⟨k, hk, rfl⟩ := List.mem_map.mp ha
        exact ⟨key, k.1, hke, hkeys k (by rw [hsplit]; simp [hk]), hbefore k hk⟩
      · intro a ha
        obtain ⟨k, hk, rfl⟩ := List.mem_map.mp ha
        rintro ⟨ka, kb, hka, hkb, hlt⟩
        rw [hkeys k (by rw [hsplit]; simp [hk]), Except.ok.injEq] at hka
        rw [hke, Except.ok.injEq] at hkb
        subst hka hkb
        exact absurd hlt (not_lt.mpr (hafter k hk))

/-- `failed_step` fails in decoding the nodes or in converting the start of a failing pod. -/
theorem failedStep_of_keyed {wf : Json} {nodes : List (String × Json)}
    {keyed : List (SelectionKey × String × Json)}
    (hnodes : nodesOf py (orEmptyDict (wf.get "status")) = .ok nodes)
    (hkeyed : withKeys (failures nodes) = .ok keyed) : ∃ step, failedStep py wf = .ok step := by
  unfold failedStep
  rw [hnodes, ok_bind]
  show ∃ step, (withKeys (failures nodes) >>= _) = .ok step
  rw [hkeyed, ok_bind]
  cases keyed.argmin Prod.fst with
  | none => exact ⟨_, rfl⟩
  | some k => exact ⟨_, rfl⟩

theorem keyed_of_failedStep {wf : Json} {step : Json × Json}
    (h : failedStep py wf = .ok step) :
    ∃ nodes, nodesOf py (orEmptyDict (wf.get "status")) = .ok nodes ∧
      ∃ keyed, withKeys (failures nodes) = .ok keyed := by
  unfold failedStep at h
  obtain ⟨nodes, hnodes, h⟩ := bind_eq_ok.mp h
  obtain ⟨keyed, hkeyed, _⟩ := bind_eq_ok.mp h
  exact ⟨nodes, hnodes, keyed, hkeyed⟩

end ArgoExporter.Workflows
