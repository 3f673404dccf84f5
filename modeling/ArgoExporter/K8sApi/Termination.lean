/-
  ArgoExporter.K8sApi.Termination

  The bound on a listing.  The paging loop has no counter: what falls with
  every request is the number of tokens the server returns that the loop has
  not seen yet.
-/

import ArgoExporter.K8sApi.Listing
import Mathlib.Data.Set.Finite.Basic

namespace ArgoExporter.K8sApi

open ArgoExporter.Py
open ArgoExporter.Lib

variable {Bytes : Type} (py : Platform Bytes) (cluster : Cluster) (path : String) (pageSize : Int)
  (fetch : List ListParams → Except Exc (Option Json))

/-! ## Tokens of a server -/

/-- The continuation tokens in the pages a listing can get from this server; an empty one asks for
    no next page. -/
def returnedTokens : Set String :=
  {token | token ≠ "" ∧ ∃ requests page, Asked cluster path pageSize fetch requests ∧
    fetch requests = .ok (some page) ∧
    (page.get "metadata").get? "continue" = some (.str token)}

theorem LeadsTo.get_eq {metadata : Json} {token : String} (h : LeadsTo metadata token)
    (hne : token ≠ "") : metadata.get? "continue" = some (.str token) := by
  rcases h with ⟨_, rfl⟩ | ⟨_, ⟨_, rfl⟩ | ⟨hget, _⟩⟩
  · exact absurd rfl hne
  · exact absurd rfl hne
  · exact hget

/-- A pass that goes on has got a token of the server that it had not seen. -/
theorem token_of_next {s s' : ListState}
    (hs : WhileLoop.Reaches (listTurn py cluster path pageSize fetch) (listStart pageSize) s)
    (h : listTurn py cluster path pageSize fetch s = .next s') :
    ∃ token ∈ returnedTokens cluster path pageSize fetch, token ∉ s.seenTokens ∧
      s'.seenTokens = s.seenTokens ++ [token] := by
  obtain ⟨page, items, token, hfetch, hpage, hne, hfresh, rfl⟩ :=
    listTurn_eq_next py cluster path pageSize fetch h
  have hasked : Asked cluster path pageSize fetch s.requests :=
    (asked_iff_reaches py cluster path pageSize fetch _).mpr ⟨s, hs, rfl⟩
  have htoken := ((readPage_eq_ok_iff cluster path _ _ _).mp hpage).token.get_eq hne
  exact ⟨token, ⟨hne, s.requests, page, hasked, hfetch, htoken⟩, hfresh, rfl⟩

/-! ## The variant -/

/-- How many of these tokens the loop has not seen. -/
def unseen (tokens : Finset String) (s : ListState) : Nat :=
  (tokens \ s.seenTokens.toFinset).card

theorem unseen_listStart (tokens : Finset String) :
    unseen tokens (listStart pageSize) = tokens.card := by
  simp [unseen, listStart]

theorem unseen_lt {tokens : Finset String} {s s' : ListState} {token : String}
    (hmem : token ∈ tokens) (hfresh : token ∉ s.seenTokens)
    (hseen : s'.seenTokens = s.seenTokens ++ [token]) : unseen tokens s' < unseen tokens s := by
  have hsub : tokens \ s'.seenTokens.toFinset ⊆ tokens \ s.seenTokens.toFinset := by
    apply Finset.sdiff_subset_sdiff (Finset.Subset.refl tokens)
    rw [hseen, List.toFinset_append]
    exact Finset.subset_union_left
  -- the token itself is what the next state no longer counts
  have hbefore : token ∈ tokens \ s.seenTokens.toFinset := by simp [hmem, hfresh]
  have hafter : token ∉ tokens \ s'.seenTokens.toFinset := by simp [hseen]
  exact Finset.card_lt_card ⟨hsub, fun hsup => hafter (hsup hbefore)⟩

/-- Whatever a server answers, a listing ends within one request more than it has tokens. -/
theorem listing_ends_within_tokens
    (hfinite : (returnedTokens cluster path pageSize fetch).Finite) :
    (∃ outcome, listItems py cluster path pageSize fetch (hfinite.toFinset.card + 1) =
      some outcome) ∧
    ∀ requests, Asked cluster path pageSize fetch requests →
      requests.length ≤ hfinite.toFinset.card + 1 := by
  have hrun : ∃ outcome, listItems py cluster path pageSize fetch (hfinite.toFinset.card + 1) =
      some outcome := by
    rw [← unseen_listStart pageSize]
    apply WhileLoop.run_of_variant
    intro s s' hs hnext
    obtain ⟨token, hmem, hfresh, hseen⟩ := token_of_next py cluster path pageSize fetch hs hnext
    exact unseen_lt (hfinite.mem_toFinset.mpr hmem) hfresh hseen
  refine ⟨hrun, fun requests hasked => ?_⟩
  obtain ⟨outcome, hrun⟩ := hrun
  obtain ⟨s, hs, rfl⟩ := (asked_iff_reaches py cluster path pageSize fetch requests).mp hasked
  have hlen := length_of_run py cluster path pageSize fetch hrun hs
  have hstart : (listStart pageSize).requests.length = 1 := rfl
  omega

/-- A server that sends two tokens in turn, however often it is asked. -/
def alternating (requests : List ListParams) : Except Exc (Option Json) :=
  .ok (some (.obj [("items", .arr []),
    ("metadata", .obj [("continue", .str (if requests.length % 2 = 1 then "a" else "b"))])]))

theorem finite_returnedTokens_alternating :
    (returnedTokens ⟨"alpha", none, none⟩ "/workflows" 1 alternating).Finite := by
  have hsub : returnedTokens ⟨"alpha", none, none⟩ "/workflows" 1 alternating ⊆ {"a", "b"} := by
    rintro token ⟨_, requests, page, _, hfetch, htoken⟩
    obtain rfl := Option.some.inj (Except.ok.inj hfetch)
    have hcontinue : (if requests.length % 2 = 1 then "a" else "b") = token :=
      Json.str.inj (Option.some.inj htoken)
    split_ifs at hcontinue
    · exact Or.inl hcontinue.symm
    · exact Or.inr hcontinue.symm
  exact Set.Finite.subset (by simp) hsub

/-- A server that alternates between two tokens is asked three times at most. -/
theorem listing_ends_within_tokens_alternating :
    let n := finite_returnedTokens_alternating.toFinset.card
    (∃ outcome, listItems Reference.platform ⟨"alpha", none, none⟩ "/workflows" 1 alternating
      (n + 1) = some outcome) ∧
    ∀ requests, Asked ⟨"alpha", none, none⟩ "/workflows" 1 alternating requests →
      requests.length ≤ n + 1 :=
  listing_ends_within_tokens _ _ _ _ _ finite_returnedTokens_alternating

end ArgoExporter.K8sApi
