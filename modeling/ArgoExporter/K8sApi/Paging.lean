/-
  ArgoExporter.K8sApi.Paging

  The requests a listing makes (`Asked`), when the paging loop ends, and which
  exceptions leave it.
-/

import ArgoExporter.K8sApi

namespace ArgoExporter.K8sApi

open ArgoExporter.Py
open ArgoExporter.Lib

/-! ## Requests of a listing -/

section Requests

variable {Bytes : Type} (py : Platform Bytes) (cluster : Cluster) (path : String) (pageSize : Int)
  (fetch : List ListParams → Except Exc (Option Json))

/-- Request histories: the first request, and one more after every page with a token that no
    earlier request has used. -/
inductive Asked : List ListParams → Prop
  | first : Asked [⟨pageSize, none⟩]
  | next {requests : List ListParams} {page : Json} {items : List Json} {token : String}
      (h : Asked requests) (hfetch : fetch requests = .ok (some page))
      (hpage : readPage cluster path page = .ok (items, token)) (hne : token ≠ "")
      (hfresh : token ∉ requests.filterMap ListParams.continue) :
      Asked (requests ++ [⟨pageSize, some token⟩])

/-- Every pass of the loop that goes on has read a page with a fresh token. -/
theorem listTurn_eq_next {s s' : ListState}
    (h : listTurn py cluster path pageSize fetch s = .next s') :
    ∃ page items token, fetch s.requests = .ok (some page) ∧
      readPage cluster path page = .ok (items, token) ∧ token ≠ "" ∧ token ∉ s.seenTokens ∧
      s' = ⟨s.items ++ items, s.requests ++ [⟨pageSize, some token⟩], s.seenTokens ++ [token]⟩ := by
  unfold listTurn at h
  cases hfetch : fetch s.requests with
  | error e => simp [hfetch] at h
  | ok response =>
      cases response with
      | none => simp [hfetch] at h
      | some page =>
          cases hpage : readPage cluster path page with
          | error e => simp [hfetch, hpage] at h
          | ok pair =>
              obtain ⟨items, token⟩ := pair
              -- a page with a token that is new is the only way on
              simp only [hfetch, hpage] at h
              by_cases hempty : token = ""
              · simp [hempty] at h
              · by_cases hseen : token ∈ s.seenTokens
                · simp [hempty, hseen] at h
                · simp only [hempty, hseen, if_false, Turn.next.injEq] at h
                  exact ⟨page, items, token, rfl, hpage, hempty, hseen, h.symm⟩

theorem listTurn_of_page {s : ListState} {page : Json} {items : List Json} {token : String}
    (hfetch : fetch s.requests = .ok (some page))
    (hpage : readPage cluster path page = .ok (items, token)) (hne : token ≠ "")
    (hfresh : token ∉ s.seenTokens) :
    listTurn py cluster path pageSize fetch s =
      .next ⟨s.items ++ items, s.requests ++ [⟨pageSize, some token⟩], s.seenTokens ++ [token]⟩ := by
  simp only [listTurn, hfetch, hpage, hne, hfresh, if_false]

/-- The tokens the loop has seen are the ones it has asked for. -/
theorem seenTokens_of_reaches {s : ListState}
    (h : WhileLoop.Reaches (listTurn py cluster path pageSize fetch) (listStart pageSize) s) :
    s.seenTokens = s.requests.filterMap ListParams.continue := by
  have hstep : ∀ t t' : ListState, t.seenTokens = t.requests.filterMap ListParams.continue →
      listTurn py cluster path pageSize fetch t = .next t' →
      t'.seenTokens = t'.requests.filterMap ListParams.continue := by
    intro t t' ht hturn
    obtain ⟨_, _, token, _, _, _, _, rfl⟩ := listTurn_eq_next py cluster path pageSize fetch hturn
    dsimp only
    rw [ht, List.filterMap_append]
    rfl
  have hinv := WhileLoop.Reaches.invariant _ hstep rfl h
  exact hinv

/-- The histories are those of the states the loop gets to. -/
theorem asked_iff_reaches (requests : List ListParams) :
    Asked cluster path pageSize fetch requests ↔
      ∃ s, WhileLoop.Reaches (listTurn py cluster path pageSize fetch) (listStart pageSize) s ∧
        s.requests = requests := by
  constructor
  · intro h
    induction h with
    | first => exact ⟨listStart pageSize, Relation.ReflTransGen.refl, rfl⟩
    | next _ hfetch hpage hne hfresh ih =>
        obtain ⟨s, hs, rfl⟩ := ih
        rw [← seenTokens_of_reaches py cluster path pageSize fetch hs] at hfresh
        exact ⟨_, hs.tail (listTurn_of_page py cluster path pageSize fetch hfetch hpage hne hfresh),
          rfl⟩
  · rintro ⟨s, hs, rfl⟩
    -- the tokens seen are those of the requests made
    have hstep : ∀ t t' : ListState, (Asked cluster path pageSize fetch t.requests ∧
        t.seenTokens = t.requests.filterMap ListParams.continue) →
        listTurn py cluster path pageSize fetch t = .next t' →
        Asked cluster path pageSize fetch t'.requests ∧
          t'.seenTokens = t'.requests.filterMap ListParams.continue := by
      rintro t t' ⟨hasked, hseen⟩ hturn
      obtain ⟨page, items, token, hfetch, hpage, hne, hfresh, rfl⟩ :=
        listTurn_eq_next py cluster path pageSize fetch hturn
      rw [hseen] at hfresh
      refine ⟨.next hasked hfetch hpage hne hfresh, ?_⟩
      dsimp only
      rw [hseen, List.filterMap_append]
      rfl
    have hinv := WhileLoop.Reaches.invariant _ hstep ⟨.first, rfl⟩ hs
    exact hinv.1

/-! ## Termination -/

/-- Every pass that goes on makes one more request. -/
theorem length_of_next {s s' : ListState}
    (h : listTurn py cluster path pageSize fetch s = .next s') :
    s'.requests.length = s.requests.length + 1 := by
  obtain ⟨_, _, _, _, _, _, _, rfl⟩ := listTurn_eq_next py cluster path pageSize fetch h
  rw [List.length_append, List.length_singleton]

/-- A loop that ends within `n` passes has made at most that many requests. -/
theorem length_of_run {n : Nat} {s s' : ListState} {outcome : ListOutcome}
    (hrun : WhileLoop.run (listTurn py cluster path pageSize fetch) n s = some outcome)
    (h : WhileLoop.Reaches (listTurn py cluster path pageSize fetch) s s') :
    s'.requests.length < s.requests.length + n := by
  induction n generalizing s with
  | zero => exact absurd hrun (by simp [WhileLoop.run])
  | succ n ih =>
      rcases Relation.ReflTransGen.cases_head h with rfl | ⟨t, ht, hrest⟩
      · omega
      · have hlen := length_of_next py cluster path pageSize fetch ht
        rw [WhileLoop.run_succ_of_next ht] at hrun
        have := ih hrun hrest
        omega

theorem returns_of_bound {bound : Nat} {s : ListState}
    (hbound : ∀ s', WhileLoop.Reaches (listTurn py cluster path pageSize fetch) s s' →
      s'.requests.length ≤ bound) :
    ∃ outcome, WhileLoop.Returns (listTurn py cluster path pageSize fetch) s outcome := by
  -- the requests still allowed fall: every turn makes one
  have hstep : ∀ t t', WhileLoop.Reaches (listTurn py cluster path pageSize fetch) s t →
      listTurn py cluster path pageSize fetch t = .next t' →
      bound - t'.requests.length < bound - t.requests.length := by
    intro t t' ht hnext
    have hlen := length_of_next py cluster path pageSize fetch hnext
    have hle := hbound t' (ht.tail hnext)
    omega
  obtain ⟨outcome, hrun⟩ := WhileLoop.run_of_variant
    (fun t : ListState => bound - t.requests.length) hstep
  exact ⟨outcome, _, hrun⟩

/-- A listing ends exactly when its requests are bounded in number. -/
theorem listsTo_iff_bounded :
    (∃ outcome, ListsTo py cluster path pageSize fetch outcome) ↔
      ∃ bound, ∀ requests, Asked cluster path pageSize fetch requests →
        requests.length ≤ bound := by
  constructor
  · rintro ⟨outcome, n, hrun⟩
    refine ⟨n + 1, fun requests hasked => ?_⟩
    obtain ⟨s, hs, rfl⟩ := (asked_iff_reaches py cluster path pageSize fetch requests).mp hasked
    have hlen := length_of_run py cluster path pageSize fetch hrun hs
    have hstart : (listStart pageSize).requests.length = 1 := rfl
    omega
  · rintro ⟨bound, hbound⟩
    exact returns_of_bound py cluster path pageSize fetch fun s hs =>
      hbound s.requests ((asked_iff_reaches py cluster path pageSize fetch _).mpr ⟨s, hs, rfl⟩)

/-! ## Exceptions -/

theorem malformed_eq_error {α : Type} {detail : String} {e : Exc}
    (h : (malformed cluster path detail : Except Exc α) = .error e) :
    e.cls = .kubernetesResponseError := by
  rw [← Except.error.inj h]

theorem continueToken_eq_error {metadata : Json} {e : Exc}
    (h : continueToken cluster path metadata = .error e) : e.cls = .kubernetesResponseError := by
  unfold continueToken at h
  split at h
  · exact absurd h (by simp)
  · split at h
    · exact absurd h (by simp)
    · split at h
      · exact malformed_eq_error cluster path h
      · exact absurd h (by simp)
    · exact malformed_eq_error cluster path h
  · exact malformed_eq_error cluster path h

theorem readPage_eq_error {page : Json} {e : Exc} (h : readPage cluster path page = .error e) :
    e.cls = .kubernetesResponseError := by
  unfold readPage at h
  split at h
  · split at h
    · exact malformed_eq_error cluster path h
    · rcases bind_eq_error.mp h with htoken | ⟨token, _, hret⟩
      · exact continueToken_eq_error cluster path htoken
      · exact absurd hret (by simp)
    · exact malformed_eq_error cluster path h
  · exact malformed_eq_error cluster path h

/-- The errors the loop raises itself are malformed responses; any other one comes from a fetch. -/
theorem listTurn_eq_error {s : ListState} {e : Exc}
    (h : listTurn py cluster path pageSize fetch s = .done (.error e)) :
    fetch s.requests = .error e ∨ e.cls = .kubernetesResponseError := by
  unfold listTurn at h
  cases hfetch : fetch s.requests with
  | error e' =>
      simp only [hfetch, Turn.done.injEq, Except.error.injEq] at h
      exact Or.inl (by rw [h])
  | ok response =>
      right
      cases response with
      | none => simp [hfetch] at h
      | some page =>
          cases hpage : readPage cluster path page with
          | error e' =>
              simp only [hfetch, hpage, Turn.done.injEq, Except.error.injEq] at h
              rw [← h]
              exact readPage_eq_error cluster path hpage
          | ok pair =>
              obtain ⟨items, token⟩ := pair
              simp only [hfetch, hpage] at h
              by_cases hempty : token = ""
              · simp [hempty] at h
              · by_cases hseen : token ∈ s.seenTokens
                · simp only [hempty, hseen, if_false, if_true, malformed, raise_eq_error,
                    Turn.done.injEq, Except.error.injEq] at h
                  rw [← h]
                · simp [hempty, hseen] at h

end Requests

end ArgoExporter.K8sApi
