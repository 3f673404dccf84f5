/-
  ArgoExporter.Workflows.StepOrder

  Which failing pod a workflow is named after, without the map's order: the one
  that started first by the clock, pods without a usable start last, and the
  node key where the clock does not decide.  Keys are distinct, so there is one
  such pod and every order of the map gives it.
-/

import ArgoExporter.Workflows.Timestamps

namespace ArgoExporter.Workflows

open ArgoExporter.Py
open ArgoExporter.ParquetIo

/-! ## Specification -/

/-- The UTC instant of a usable timestamp, in microseconds. -/
def utcInstant (value : Json) : Option Int :=
  match parseTs value with
  | some ⟨naive, some offset⟩ => some (naive.micros - offset)
  | _ => none

/-- The first node comes before the second: a usable start before none, then the earlier instant,
    then the smaller key. -/
def Earlier (a b : String × Json) : Prop :=
  match utcInstant (a.2.get "startedAt"), utcInstant (b.2.get "startedAt") with
  | some i, some j => i < j ∨ i = j ∧ a.1 < b.1
  | some _, none => True
  | none, some _ => False
  | none, none => a.1 < b.1

/-- The failing pod before all others. -/
structure LeastFailure (nodes : List (String × Json)) (e : String × Json) : Prop where
  failing : e ∈ failures nodes
  least : ∀ e' ∈ failures nodes, e' ≠ e → Earlier e e'

/-- What `failed_step` has to return for a node map. -/
structure IsFailedStep (nodes : List (String × Json)) (step : Json × Json) : Prop where
  nothing : failures nodes = [] → step = (.null, .null)
  least : failures nodes ≠ [] → ∃ e, LeastFailure nodes e ∧
    (∀ e', LeastFailure nodes e' → e' = e) ∧ step = (stepName e.2, e.2.get "message")

/-! ## The order -/

theorem utcInstant_of_usable {value : Json} {naive : Naive} {offset : Int}
    (h : parseTs value = some ⟨naive, some offset⟩) :
    utcInstant value = some (naive.micros - offset) := by
  unfold utcInstant
  rw [h]

theorem utcInstant_of_unusable {value : Json} (h : ¬ Usable value) : utcInstant value = none := by
  unfold utcInstant
  split
  · rename_i naive offset hparse
    exact absurd ⟨naive, offset, hparse⟩ h
  · rfl

theorem Earlier.asymm {a b : String × Json} (h : Earlier a b) : ¬ Earlier b a := by
  unfold Earlier at h ⊢
  generalize utcInstant (a.2.get "startedAt") = start at h ⊢
  generalize utcInstant (b.2.get "startedAt") = start' at h ⊢
  -- a step without an instant comes after every step with one
  cases start with
  | none =>
      cases start' with
      | none => exact lt_asymm h
      | some j => exact absurd h id
  | some i =>
      cases start' with
      | none => exact id
      | some j =>
          rintro (hlt | ⟨heq, hlt⟩)
          · rcases h with h | ⟨h, _⟩
            · exact lt_asymm h hlt
            · exact absurd h (ne_of_gt hlt)
          · rcases h with h | ⟨_, h⟩
            · exact absurd heq (ne_of_gt h)
            · exact lt_asymm h hlt

/-- The selection key of a node in range: the two groups, then the instant, then the node key. -/
theorem selectionKey_eq_ok {e : String × Json} (h : UtcInRange (e.2.get "startedAt")) :
    (∃ instant : Nat, utcInstant (e.2.get "startedAt") = some (instant : Int) ∧
      selectionKey e = .ok (toLex (0, toLex (instant, e.1)))) ∨
      utcInstant (e.2.get "startedAt") = none ∧
        selectionKey e = .ok (toLex (1, toLex (Naive.max.micros, e.1))) := by
  by_cases husable : Usable (e.2.get "startedAt")
  · obtain ⟨naive, offset, hparse⟩ := husable
    obtain ⟨utc, hutc⟩ := (astimezoneUtc_ok_iff naive offset).mpr (h naive offset hparse)
    refine Or.inl ⟨utc.micros, ?_, ?_⟩
    · rw [utcInstant_of_usable hparse, astimezoneUtc_eq_ok_iff.mp hutc]
    · rw [selectionKey_of_usable hparse, hutc]
      rfl
  · exact Or.inr ⟨utcInstant_of_unusable husable, selectionKey_of_unusable husable⟩

/-- Comparing selection keys compares starts and node keys. -/
theorem precedes_iff_earlier {a b : String × Json} (ha : UtcInRange (a.2.get "startedAt"))
    (hb : UtcInRange (b.2.get "startedAt")) : Precedes a b ↔ Earlier a b := by
  -- in range both keys are computed, so precedence is the order of the keys
  have hprecedes {ka kb : SelectionKey} (hka : selectionKey a = .ok ka)
      (hkb : selectionKey b = .ok kb) : Precedes a b ↔ ka < kb := by
    constructor
    · rintro ⟨ka', kb', hka', hkb', hlt⟩
      rw [hka, Except.ok.injEq] at hka'
      rw [hkb, Except.ok.injEq] at hkb'
      rw [hka', hkb']
      exact hlt
    · intro hlt
      exact ⟨ka, kb, hka, hkb, hlt⟩
  unfold Earlier
  -- the first component of a key is 0 with an instant and 1 without
  rcases selectionKey_eq_ok ha with ⟨i, hi, hka⟩ | ⟨hi, hka⟩
  · rcases selectionKey_eq_ok hb with ⟨j, hj, hkb⟩ | ⟨hj, hkb⟩
    · rw [hprecedes hka hkb, hi, hj, Prod.Lex.toLex_lt_toLex, Prod.Lex.toLex_lt_toLex]
      simp
    · rw [hprecedes hka hkb, hi, hj, Prod.Lex.toLex_lt_toLex]
      simp
  · rcases selectionKey_eq_ok hb with ⟨j, hj, hkb⟩ | ⟨hj, hkb⟩
    · rw [hprecedes hka hkb, hi, hj, Prod.Lex.toLex_lt_toLex]
      simp
    · rw [hprecedes hka hkb, hi, hj, Prod.Lex.toLex_lt_toLex, Prod.Lex.toLex_lt_toLex]
      simp

/-- Of two nodes under different keys one is earlier. -/
theorem earlier_total {a b : String × Json} (h : a.1 ≠ b.1) : Earlier a b ∨ Earlier b a := by
  unfold Earlier
  cases utcInstant (a.2.get "startedAt") with
  -- a node without a usable start comes after every other, by its key
  | none =>
      cases utcInstant (b.2.get "startedAt") with
      | none => exact lt_or_gt_of_ne h
      | some j => exact Or.inr trivial
  | some i =>
      cases utcInstant (b.2.get "startedAt") with
      | none => exact Or.inl trivial
      | some j =>
          rcases lt_trichotomy i j with hlt | heq | hlt
          · exact Or.inl (Or.inl hlt)
          · rcases lt_or_gt_of_ne h with hkey | hkey
            · exact Or.inl (Or.inr ⟨heq, hkey⟩)
            · exact Or.inr (Or.inr ⟨heq.symm, hkey⟩)
          · exact Or.inr (Or.inl hlt)

/-! ## The least failure -/

theorem LeastFailure.unique {nodes : List (String × Json)} {e e' : String × Json}
    (h : LeastFailure nodes e) (h' : LeastFailure nodes e') : e = e' := by
  by_contra hne
  exact (h.least e' h'.failing (Ne.symm hne)).asymm (h'.least e h.failing hne)

theorem LeastFailure.perm {nodes nodes' : List (String × Json)} {e : String × Json}
    (h : LeastFailure nodes e) (hperm : nodes'.Perm nodes) : LeastFailure nodes' e := by
  have hfailures : ∀ x, x ∈ failures nodes' ↔ x ∈ failures nodes :=
    fun x => (hperm.filter _).mem_iff
  exact ⟨(hfailures e).mpr h.failing, fun e' he' => h.least e' ((hfailures e').mp he')⟩

/-- With distinct keys and starts in range, the node that is reported is the least failure. -/
theorem EarliestFailure.leastFailure {nodes : List (String × Json)} {e : String × Json}
    (h : EarliestFailure nodes e) (hkeys : (nodes.map Prod.fst).Nodup)
    (hrange : ∀ x ∈ failures nodes, UtcInRange (x.2.get "startedAt")) : LeastFailure nodes e := by
  have hfailing := h.mem_failures
  obtain ⟨before, after, hsplit, hbefore, hafter⟩ := h
  refine ⟨hfailing, fun e' he' hne => ?_⟩
  -- nodes of one map have different keys
  have hkey : e.1 ≠ e'.1 := by
    intro heq
    have hmem := (List.mem_filter.mp hfailing).1
    have hmem' := (List.mem_filter.mp he').1
    exact hne (List.inj_on_of_nodup_map hkeys hmem' hmem heq.symm)
  have hmem := he'
  rw [hsplit, List.mem_append, List.mem_cons] at hmem
  rcases hmem with hmem | rfl | hmem
  · exact (precedes_iff_earlier (hrange e hfailing) (hrange e' he')).mp (hbefore e' hmem)
  · exact absurd rfl hne
  · have hnot := hafter e' hmem
    rw [precedes_iff_earlier (hrange e' he') (hrange e hfailing)] at hnot
    exact (earlier_total hkey).resolve_right hnot

/-! ## The reported step -/

variable {Bytes : Type} (py : Platform Bytes)

/-- `failed_step` returns the failed step of the node map it looks at. -/
theorem failedStep_spec {wf : Json} {nodes : List (String × Json)}
    (hnodes : nodesOf py (wf.get "status") = .ok nodes) (hkeys : (nodes.map Prod.fst).Nodup)
    (hrange : ∀ e ∈ failures nodes, UtcInRange (e.2.get "startedAt")) :
    ∃ step, failedStep py wf = .ok step ∧ IsFailedStep nodes step := by
  obtain ⟨step, hstep⟩ : ∃ step, failedStep py wf = .ok step :=
    failedStep_ok_iff.mpr ⟨nodes, hnodes, hrange⟩
  refine ⟨step, hstep, ?_⟩
  obtain ⟨name, message⟩ := step
  obtain ⟨nodes', hnodes', hcases⟩ := failedStep_eq_ok hstep
  rw [nodesOf_orEmptyDict, hnodes, Except.ok.injEq] at hnodes'
  subst hnodes'
  rcases hcases with ⟨hnone, rfl, rfl⟩ | ⟨e, he, rfl, rfl⟩
  · exact ⟨fun _ => rfl, fun hne => absurd hnone hne⟩
  · have hleast := he.leastFailure hkeys hrange
    refine ⟨fun hnone => ?_, fun _ => ⟨e, hleast, fun e' he' => he'.unique hleast, rfl⟩⟩
    exact absurd (hnone ▸ hleast.failing) List.not_mem_nil

/-- A node map has one failed step, whatever its order. -/
theorem IsFailedStep.unique {nodes nodes' : List (String × Json)} {step step' : Json × Json}
    (h : IsFailedStep nodes step) (h' : IsFailedStep nodes' step') (hperm : nodes'.Perm nodes) :
    step' = step := by
  have hfailures : (failures nodes').Perm (failures nodes) := hperm.filter _
  by_cases hnone : failures nodes = []
  · have hnone' : failures nodes' = [] := List.perm_nil.mp (hnone ▸ hfailures)
    rw [h.nothing hnone, h'.nothing hnone']
  · have hsome' : failures nodes' ≠ [] := fun hnil =>
      hnone (List.perm_nil.mp (hnil ▸ hfailures).symm)
    obtain ⟨e, he, _, hstep⟩ := h.least hnone
    obtain ⟨e', he', _, hstep'⟩ := h'.least hsome'
    rw [hstep, hstep', he'.unique (he.perm hperm)]

/-- A node map has one failed step, and `failed_step` returns it in whatever order the map is met. -/
theorem failed_step_ignores_order {nodes : List (String × Json)}
    (hkeys : (nodes.map Prod.fst).Nodup)
    (hrange : ∀ e ∈ failures nodes, UtcInRange (e.2.get "startedAt")) :
    ∃ step, IsFailedStep nodes step ∧
      ∀ wf nodes', nodesOf py (wf.get "status") = .ok nodes' → nodes'.Perm nodes →
        failedStep py wf = .ok step := by
  obtain ⟨step, _, hstep⟩ : ∃ step,
      failedStep py (.obj [("status", .obj [("nodes", .obj nodes)])]) = .ok step ∧
        IsFailedStep nodes step := failedStep_spec py (nodesOf_of_nodes rfl) hkeys hrange
  refine ⟨step, hstep, fun wf nodes' hnodes' hperm => ?_⟩
  have hkeys' : (nodes'.map Prod.fst).Nodup := (hperm.map Prod.fst).nodup_iff.mpr hkeys
  have hrange' : ∀ e ∈ failures nodes', UtcInRange (e.2.get "startedAt") :=
    fun e he => hrange e ((hperm.filter _).mem_iff.mp he)
  obtain ⟨step', hfailed, hstep'⟩ : ∃ step', failedStep py wf = .ok step' ∧
      IsFailedStep nodes' step' := failedStep_spec py hnodes' hkeys' hrange'
  rw [hfailed, hstep.unique hstep' hperm]

/-- Two failing pods: one started at a known time, the other one at no usable one. -/
def twoFailures : List (String × Json) :=
  [("a", .obj [("type", .str "Pod"), ("phase", .str "Failed"), ("startedAt", .str "yesterday")]),
    ("b", .obj [("type", .str "Pod"), ("phase", .str "Error"),
      ("startedAt", .str "2026-01-01T00:00:00Z")])]

/-- Two failing pods, one of them without a usable start. -/
theorem failed_step_ignores_order_twoFailures :
    ∃ step, IsFailedStep twoFailures step ∧
      ∀ wf nodes', nodesOf Reference.platform (wf.get "status") = .ok nodes' →
        nodes'.Perm twoFailures → failedStep Reference.platform wf = .ok step := by
  have hrange : ∀ e ∈ failures twoFailures, UtcInRange (e.2.get "startedAt") := by
    have hparse : parseTs (.str "2026-01-01T00:00:00Z") =
        some ⟨⟨63902822400000000, by decide⟩, some 0⟩ := by decide
    have hunusable : parseTs (.str "yesterday") = none := by decide
    intro e he naive offset h
    have hmem : e ∈ twoFailures := (List.mem_filter.mp he).1
    rcases List.mem_cons.mp hmem with rfl | hmem
    · exact absurd (hunusable.symm.trans h) (by simp)
    · rw [List.mem_singleton.mp hmem] at h
      obtain ⟨rfl, hoffset⟩ := DateTime.mk.inj (Option.some.inj (hparse.symm.trans h))
      rw [← Option.some.inj hoffset]
      decide
  exact failed_step_ignores_order Reference.platform (by decide) hrange

end ArgoExporter.Workflows
