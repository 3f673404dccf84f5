/-
  ArgoExporter.Lib.Regions

  Parties with states of their own that act on one memory, each confined to a
  region of it.  When the regions are disjoint, a party cannot tell whether
  the others are there (`run_alike`), and how the parties take turns makes no
  difference to anyone (`run_eq_of_own`).
-/

import Mathlib.Data.Set.Function
import Mathlib.Data.Set.Lattice
import Mathlib.Order.CompletePartialOrder

namespace ArgoExporter.Lib.Regions

/-! ## Confined actions -/

section Confined

variable {σ κ β : Type*} (region : Set κ)

/-- The same party, over memories that agree on the region. -/
def Alike (x y : σ × (κ → β)) : Prop := x.1 = y.1 ∧ Set.EqOn x.2 y.2 region

/-- The action changes nothing outside the region, and nothing outside it has a part in what it
    does to the party and to the region. -/
structure Confined (f : σ × (κ → β) → σ × (κ → β)) : Prop where
  frame : ∀ x, ∀ k ∉ region, (f x).2 k = x.2 k
  alike : ∀ {x y}, Alike region x y → Alike region (f x) (f y)

variable {region}

theorem Alike.refl (x : σ × (κ → β)) : Alike region x x := ⟨rfl, Set.eqOn_refl _ _⟩

theorem Alike.symm {x y : σ × (κ → β)} (h : Alike region x y) : Alike region y x :=
  ⟨h.1.symm, h.2.symm⟩

theorem Alike.trans {x y z : σ × (κ → β)} (hxy : Alike region x y) (hyz : Alike region y z) :
    Alike region x z := ⟨hxy.1.trans hyz.1, hxy.2.trans hyz.2⟩

/-- An action that only reads, and only in the region. -/
theorem Confined.of_reads (f : σ → (κ → β) → σ)
    (h : ∀ s {m m'}, Set.EqOn m m' region → f s m = f s m') :
    Confined region fun x : σ × (κ → β) => (f x.1 x.2, x.2) where
  frame _ _ _ := rfl
  alike {x y} hxy := ⟨by rw [hxy.1]; exact h y.1 hxy.2, hxy.2⟩

end Confined

/-! ## Interleavings -/

variable {ι κ β : Type*} [DecidableEq ι] {σ α : ι → Type*}

/-- Every party's state, and the memory they share. -/
structure Shared (σ : ι → Type*) (κ β : Type*) where
  parties : ∀ i, σ i
  memory : κ → β

/-- What one party sees. -/
def Shared.view (g : Shared σ κ β) (i : ι) : σ i × (κ → β) := (g.parties i, g.memory)

variable (act : ∀ i, α i → σ i × (κ → β) → σ i × (κ → β))

/-- One party acts. -/
def step (g : Shared σ κ β) (a : Σ i, α i) : Shared σ κ β :=
  let next := act a.1 a.2 (g.view a.1)
  ⟨Function.update g.parties a.1 next.1, next.2⟩

/-- The parties act in the given order. -/
def run (g : Shared σ κ β) (acts : List (Σ i, α i)) : Shared σ κ β := acts.foldl (step act) g

/-- One party acts with nobody else there. -/
def alone (i : ι) (acts : List (α i)) (x : σ i × (κ → β)) : σ i × (κ → β) :=
  acts.foldl (fun x a => act i a x) x

/-- The actions of one party, in their order. -/
def own (i : ι) : List (Σ i, α i) → List (α i)
  | [] => []
  | a :: acts => if h : a.1 = i then (h ▸ a.2) :: own i acts else own i acts

theorem own_cons_self (i : ι) (a : α i) (acts : List (Σ i, α i)) :
    own i (⟨i, a⟩ :: acts) = a :: own i acts := dif_pos rfl

theorem own_cons_of_ne {i j : ι} (h : j ≠ i) (a : α j) (acts : List (Σ i, α i)) :
    own i (⟨j, a⟩ :: acts) = own i acts := dif_neg h

variable {act} (region : ι → Set κ) {acts : List (Σ i, α i)}

/-- What lies in nobody's region stays as it was. -/
theorem run_frame (hconfined : ∀ a ∈ acts, Confined (region a.1) (act a.1 a.2))
    (g : Shared σ κ β) {k : κ} (hk : ∀ i, k ∉ region i) :
    (run act g acts).memory k = g.memory k := by
  induction acts generalizing g with
  | nil => rfl
  | cons a acts ih =>
      have hrest := ih (fun b hb => hconfined b (List.mem_cons_of_mem a hb)) (step act g a)
      exact hrest.trans ((hconfined a List.mem_cons_self).frame (g.view a.1) k (hk a.1))

variable {region}

/-- The step of a party is its action on what it sees. -/
theorem view_step_self (g : Shared σ κ β) (i : ι) (a : α i) :
    (step act g ⟨i, a⟩).view i = act i a (g.view i) :=
  Prod.ext (Function.update_self i _ g.parties) rfl

/-- The step of another party changes nothing a party has or may look at. -/
theorem view_step_alike (hdisjoint : Pairwise fun i j => Disjoint (region i) (region j)) {i j : ι}
    (hne : j ≠ i) {a : α j} (ha : Confined (region j) (act j a)) (g : Shared σ κ β) :
    Alike (region i) ((step act g ⟨j, a⟩).view i) (g.view i) :=
  ⟨Function.update_of_ne hne.symm _ _, fun k hk =>
    ha.frame (g.view j) k (Set.disjoint_left.mp (hdisjoint hne.symm) hk)⟩

/-- In every interleaving each party fares as it does alone. -/
theorem run_alike (hdisjoint : Pairwise fun i j => Disjoint (region i) (region j))
    (hconfined : ∀ a ∈ acts, Confined (region a.1) (act a.1 a.2)) (g : Shared σ κ β) (i : ι)
    {x : σ i × (κ → β)} (hx : Alike (region i) (g.view i) x) :
    Alike (region i) ((run act g acts).view i) (alone act i (own i acts) x) := by
  induction acts generalizing g x with
  | nil => exact hx
  | cons a acts ih =>
      have hrest : ∀ b ∈ acts, Confined (region b.1) (act b.1 b.2) :=
        fun b hb => hconfined b (List.mem_cons_of_mem a hb)
      have ha := hconfined a List.mem_cons_self
      obtain ⟨j, a⟩ := a
      by_cases hji : j = i
      · subst hji
        rw [own_cons_self]
        refine ih hrest (step act g ⟨j, a⟩) ?_
        rw [view_step_self]
        exact ha.alike hx
      · rw [own_cons_of_ne hji]
        exact ih hrest (step act g ⟨j, a⟩) ((view_step_alike hdisjoint hji ha g).trans hx)

/-- Two interleavings of the same actions of each party end in the same state. -/
theorem run_eq_of_own (hdisjoint : Pairwise fun i j => Disjoint (region i) (region j))
    {acts' : List (Σ i, α i)} (hconfined : ∀ a ∈ acts, Confined (region a.1) (act a.1 a.2))
    (hconfined' : ∀ a ∈ acts', Confined (region a.1) (act a.1 a.2))
    (hown : ∀ i, own i acts = own i acts') (g : Shared σ κ β) : run act g acts = run act g acts' := by
  have halike : ∀ i, Alike (region i) ((run act g acts).view i) ((run act g acts').view i) := by
    intro i
    have hleft := run_alike hdisjoint hconfined g i (Alike.refl (g.view i))
    have hright := run_alike hdisjoint hconfined' g i (Alike.refl (g.view i))
    rw [hown i] at hleft
    exact hleft.trans hright.symm
  have hparties : (run act g acts).parties = (run act g acts').parties :=
    funext fun i => (halike i).1
  have hmemory : (run act g acts).memory = (run act g acts').memory := by
    funext k
    by_cases hk : ∃ i, k ∈ region i
    · obtain ⟨i, hi⟩ := hk
      exact (halike i).2 hi
    · have hnot : ∀ i, k ∉ region i := fun i hi => hk ⟨i, hi⟩
      rw [run_frame region hconfined g hnot, run_frame region hconfined' g hnot]
  cases hl : run act g acts
  cases hr : run act g acts'
  rw [hl, hr] at hparties hmemory
  dsimp only at hparties hmemory
  rw [hparties, hmemory]

/-! ## Undisturbed blocks -/

variable (act)

/-- A party that acts several times in a row acts as it does alone. -/
theorem run_block (g : Shared σ κ β) (i : ι) (acts : List (α i)) :
    run act g (acts.map (Sigma.mk i)) =
      ⟨Function.update g.parties i (alone act i acts (g.view i)).1,
        (alone act i acts (g.view i)).2⟩ := by
  induction acts generalizing g with
  | nil =>
      have hsame : Function.update g.parties i (g.parties i) = g.parties :=
        Function.update_eq_self i g.parties
      change g = ⟨Function.update g.parties i (g.parties i), g.memory⟩
      rw [hsame]
  | cons a acts ih =>
      have hrest := ih (step act g ⟨i, a⟩)
      rw [view_step_self] at hrest
      refine hrest.trans ?_
      change Shared.mk (Function.update (Function.update g.parties i _) i _) _ = _
      rw [Function.update_idem]
      rfl

theorem own_append (i : ι) (acts acts' : List (Σ i, α i)) :
    own i (acts ++ acts') = own i acts ++ own i acts' := by
  induction acts with
  | nil => rfl
  | cons a acts ih =>
      obtain ⟨j, a⟩ := a
      by_cases hji : j = i
      · subst hji
        rw [List.cons_append, own_cons_self, own_cons_self, ih, List.cons_append]
      · rw [List.cons_append, own_cons_of_ne hji, own_cons_of_ne hji, ih]

theorem own_map_self (i : ι) (acts : List (α i)) : own i (acts.map (Sigma.mk i)) = acts := by
  induction acts with
  | nil => rfl
  | cons a acts ih => rw [List.map_cons, own_cons_self, ih]

theorem own_map_of_ne {i j : ι} (h : j ≠ i) (acts : List (α j)) :
    own i (acts.map (Sigma.mk j)) = [] := by
  induction acts with
  | nil => rfl
  | cons a acts ih => rw [List.map_cons, own_cons_of_ne h, ih]

/-- Whole blocks of the parties, one block after another. -/
theorem own_flatMap {γ : ι → Type*} (block : ∀ i, γ i → List (α i)) (i : ι)
    (order : List (Σ i, γ i)) :
    own i (order.flatMap fun c => (block c.1 c.2).map (Sigma.mk c.1)) =
      (own i order).flatMap (block i) := by
  induction order with
  | nil => rfl
  | cons c order ih =>
      obtain ⟨j, c⟩ := c
      rw [List.flatMap_cons, own_append, ih]
      by_cases hji : j = i
      · subst hji
        rw [own_map_self, own_cons_self, List.flatMap_cons]
      · rw [own_map_of_ne hji, own_cons_of_ne hji, List.nil_append]

end ArgoExporter.Lib.Regions
