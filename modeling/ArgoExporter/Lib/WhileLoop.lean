/-
  ArgoExporter.Lib.WhileLoop

  A `while True` loop whose body either goes on with a new state or leaves
  with a result.  `run` executes it with fuel; `Returns` says that some amount
  of fuel is enough, so a loop that never leaves returns nothing.
-/

import Mathlib.Logic.Relation

namespace ArgoExporter.Lib

/-- What one pass through a loop body does. -/
inductive Turn (σ ρ : Type*) where
  | next (s : σ)
  | done (r : ρ)

namespace WhileLoop

variable {σ ρ : Type*} (body : σ → Turn σ ρ)

/-- Execute at most `n` passes. -/
def run : Nat → σ → Option ρ
  | 0, _ => none
  | n + 1, s =>
      match body s with
      | .done r => some r
      | .next s' => run n s'

/-- The loop started in `s` leaves with `r`. -/
def Returns (s : σ) (r : ρ) : Prop := ∃ n, run body n s = some r

/-- The loop started in `s` gets to a pass that starts in `s'`. -/
def Reaches : σ → σ → Prop := Relation.ReflTransGen fun s s' => body s = .next s'

variable {body}

theorem run_succ_of_next {n : Nat} {s s' : σ} (h : body s = .next s') :
    run body (n + 1) s = run body n s' := by
  rw [run, h]

theorem run_succ_of_done {n : Nat} {s : σ} {r : ρ} (h : body s = .done r) :
    run body (n + 1) s = some r := by
  rw [run, h]

theorem Returns.of_done {s : σ} {r : ρ} (h : body s = .done r) : Returns body s r :=
  ⟨1, run_succ_of_done h⟩

theorem Returns.of_next {s s' : σ} {r : ρ} (h : body s = .next s') (hr : Returns body s' r) :
    Returns body s r := by
  obtain ⟨n, hn⟩ := hr
  exact ⟨n + 1, by rw [run_succ_of_next h, hn]⟩

/-- A loop returns exactly when some reachable pass leaves it. -/
theorem returns_iff {s : σ} {r : ρ} :
    Returns body s r ↔ ∃ s', Reaches body s s' ∧ body s' = .done r := by
  constructor
  · rintro ⟨n, hn⟩
    induction n generalizing s with
    | zero => exact absurd hn (by simp [run])
    | succ n ih =>
        cases hb : body s with
        | done r' =>
            rw [run_succ_of_done hb] at hn
            exact ⟨s, Relation.ReflTransGen.refl, by rw [hb, Option.some.inj hn]⟩
        | next s' =>
            rw [run_succ_of_next hb] at hn
            obtain ⟨t, ht, hd⟩ := ih hn
            exact ⟨t, Relation.ReflTransGen.head hb ht, hd⟩
  · rintro ⟨t, ht, hd⟩
    induction ht using Relation.ReflTransGen.head_induction_on with
    | refl => exact Returns.of_done hd
    | head h _ ih => exact Returns.of_next h ih

/-- A deterministic loop leaves with one result. -/
theorem Returns.unique {s : σ} {r r' : ρ} (h : Returns body s r) (h' : Returns body s r') :
    r = r' := by
  obtain ⟨n, hn⟩ := h
  obtain ⟨m, hm⟩ := h'
  induction n generalizing s m with
  | zero => exact absurd hn (by simp [run])
  | succ n ih =>
      cases m with
      | zero => exact absurd hm (by simp [run])
      | succ m =>
          cases hb : body s with
          | done q =>
              rw [run_succ_of_done hb] at hn hm
              exact Option.some.inj (hn.symm.trans hm)
          | next s' =>
              rw [run_succ_of_next hb] at hn hm
              exact ih hn m hm

/-- Invariant rule: a property kept by every pass holds of every reachable state. -/
theorem Reaches.invariant (Inv : σ → Prop) {s s' : σ}
    (hstep : ∀ t t', Inv t → body t = .next t' → Inv t') (hs : Inv s)
    (h : Reaches body s s') : Inv s' := by
  induction h with
  | refl => exact hs
  | tail _ hb ih => exact hstep _ _ ih hb

/-- More fuel does not change a result. -/
theorem run_of_le {n m : Nat} {s : σ} {r : ρ} (h : run body n s = some r) (hle : n ≤ m) :
    run body m s = some r := by
  induction n generalizing s m with
  | zero => exact absurd h (by simp [run])
  | succ n ih =>
      obtain ⟨m, rfl⟩ : ∃ k, m = k + 1 := ⟨m - 1, by omega⟩
      cases hb : body s with
      | done r' =>
          rw [run_succ_of_done hb] at h ⊢
          exact h
      | next s' =>
          rw [run_succ_of_next hb] at h ⊢
          exact ih h (by omega)

/-- Variant rule: a loop whose rank falls with every pass that goes on leaves after as many passes
    as the rank allows, and one more. -/
theorem run_of_variant (rank : σ → Nat) {s : σ}
    (hstep : ∀ t t', Reaches body s t → body t = .next t' → rank t' < rank t) :
    ∃ r, run body (rank s + 1) s = some r := by
  induction hk : rank s using Nat.strongRecOn generalizing s with
  | _ k ih =>
      cases hb : body s with
      | done r => exact ⟨r, run_succ_of_done hb⟩
      | next s' =>
          have hlt : rank s' < k := hk ▸ hstep s s' Relation.ReflTransGen.refl hb
          obtain ⟨r, hr⟩ := ih (rank s') hlt
            (fun t t' ht hnext => hstep t t' (Relation.ReflTransGen.head hb ht) hnext) rfl
          refine ⟨r, ?_⟩
          rw [run_succ_of_next hb]
          exact run_of_le hr (by omega)

end WhileLoop

end ArgoExporter.Lib
