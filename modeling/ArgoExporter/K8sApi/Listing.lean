/-
  ArgoExporter.K8sApi.Listing

  `list_items` against the exchange it should have with a server: a chain of
  pages, each asked for with the token of the one before it.  The listing is
  the whole chain, or nothing, or an error; the state of the loop is a function
  of the pages read so far (`stateAfter`).
-/

import ArgoExporter.K8sApi.Paging
import ArgoExporter.Reference

namespace ArgoExporter.K8sApi

open ArgoExporter.Py
open ArgoExporter.Lib

/-! ## Pages -/

/-- The metadata of a page says that this token leads to the next one; without a next page the
    token is absent or empty. -/
def LeadsTo (metadata : Json) (token : String) : Prop :=
  metadata = .null ∧ token = "" ∨
    metadata.isDict = true ∧
      (metadata.get? "continue" = none ∧ token = "" ∨
        metadata.get? "continue" = some (.str token) ∧ (token ≠ "" → strip token ≠ ""))

/-- A well-formed list page with these items and this continuation token. -/
structure IsPage (page : Json) (items : List Json) (token : String) : Prop where
  items : page.get? "items" = some (.arr items)
  token : LeadsTo (page.get "metadata") token

section Pages

variable (cluster : Cluster) (path : String)

theorem continueToken_eq_ok_iff (metadata : Json) (token : String) :
    continueToken cluster path metadata = .ok token ↔ LeadsTo metadata token := by
  unfold continueToken LeadsTo
  -- the cases are the branches of the source: no metadata, no token, a string, anything else
  cases metadata with
  | null =>
      rw [Except.ok.injEq]
      constructor
      · rintro rfl
        exact Or.inl ⟨rfl, rfl⟩
      · rintro (⟨_, htoken⟩ | ⟨hdict, _⟩)
        · exact htoken.symm
        · exact absurd hdict (by simp [Json.isDict])
  | obj fields =>
      dsimp only
      cases hcontinue : (Json.obj fields).get? "continue" with
      | none =>
          dsimp only
          rw [Except.ok.injEq]
          constructor
          · rintro rfl
            exact Or.inr ⟨rfl, Or.inl ⟨rfl, rfl⟩⟩
          · rintro (⟨h, _⟩ | ⟨_, ⟨_, htoken⟩ | ⟨h, _⟩⟩)
            · exact absurd h (by simp)
            · exact htoken.symm
            · exact absurd h (by simp)
      | some value =>
          cases value with
          | str s =>
              dsimp only
              -- only a blank string that is not empty is refused
              by_cases hblank : s ≠ "" ∧ strip s = ""
              · rw [if_pos hblank]
                constructor
                · intro h
                  exact absurd h (by simp [malformed])
                · rintro (⟨h, _⟩ | ⟨_, ⟨h, _⟩ | ⟨h, hstrip⟩⟩)
                  · exact absurd h (by simp)
                  · exact absurd h (by simp)
                  · rw [Option.some.injEq, Json.str.injEq] at h
                    subst h
                    exact absurd hblank.2 (hstrip hblank.1)
              · rw [if_neg hblank, Except.ok.injEq]
                constructor
                · rintro rfl
                  exact Or.inr ⟨rfl, Or.inr ⟨rfl, fun hne hstrip => hblank ⟨hne, hstrip⟩⟩⟩
                · rintro (⟨h, _⟩ | ⟨_, ⟨h, _⟩ | ⟨h, _⟩⟩)
                  · exact absurd h (by simp)
                  · exact absurd h (by simp)
                  · exact Json.str.inj (Option.some.inj h)
          | _ => simp [malformed]
  | _ => simp [malformed, Json.isDict]

/-- The checks of a page accept the well-formed ones. -/
theorem readPage_eq_ok_iff (page : Json) (items : List Json) (token : String) :
    readPage cluster path page = .ok (items, token) ↔ IsPage page items token := by
  constructor
  · intro h
    unfold readPage at h
    split at h
    · rename_i fields
      split at h
      · exact absurd h (by simp [malformed])
      · rename_i pageItems hitems
        obtain ⟨token', htoken, hret⟩ := bind_eq_ok.mp h
        obtain ⟨rfl, rfl⟩ := Prod.mk.inj (Except.ok.inj hret)
        exact ⟨hitems, (continueToken_eq_ok_iff cluster path _ _).mp htoken⟩
      · exact absurd h (by simp [malformed])
    · exact absurd h (by simp [malformed])
  · rintro ⟨hitems, htoken⟩
    -- both checks read the page as an object
    cases page with
    | obj fields =>
        unfold readPage
        simp only [hitems]
        rw [(continueToken_eq_ok_iff cluster path _ _).mpr htoken, ok_bind]
        rfl
    | _ => exact absurd hitems (by simp [Json.get?])

end Pages

/-! ## Chains of pages -/

section Chains

variable (pageSize : Int) (answer : List ListParams → Json)

/-- A page as the loop keeps it: its items and its token. -/
abbrev Page := List Json × String

/-- The requests after these pages: the first one has no token, each later one has the token of the
    page before it. -/
def requestsAfter (pages : List Page) : List ListParams :=
  ⟨pageSize, none⟩ :: pages.map fun page => ⟨pageSize, some page.2⟩

/-- Each page answers the requests made up to it, and each leads on with a token of its own. -/
structure Followed (pages : List Page) : Prop where
  read : ∀ before page after, pages = before ++ page :: after →
    IsPage (answer (requestsAfter pageSize before)) page.1 page.2
  more : ∀ page ∈ pages, page.2 ≠ ""
  distinct : (pages.map Prod.snd).Nodup

/-- The server lists exactly these items: a chain of well-formed pages, the last one without a
    token, with the items of all pages in order. -/
def Lists (items : List Json) : Prop :=
  ∃ pages last, Followed pageSize answer pages ∧
    IsPage (answer (requestsAfter pageSize pages)) last "" ∧
    items = pages.flatMap Prod.fst ++ last

/-- The server fails after a chain of well-formed pages. -/
def Fails : Prop :=
  ∃ pages, Followed pageSize answer pages ∧ answer (requestsAfter pageSize pages) = .null

theorem followed_nil : Followed pageSize answer [] where
  read := by simp
  more := by simp
  distinct := List.nodup_nil

/-- A chain grows by a page that answers its requests and has a fresh token. -/
theorem followed_concat {pages : List Page} {page : Page} :
    Followed pageSize answer (pages ++ [page]) ↔
      Followed pageSize answer pages ∧
        IsPage (answer (requestsAfter pageSize pages)) page.1 page.2 ∧ page.2 ≠ "" ∧
        page.2 ∉ pages.map Prod.snd := by
  constructor
  · intro h
    have hdistinct := h.distinct
    rw [List.map_append, List.nodup_append] at hdistinct
    refine ⟨⟨?_, ?_, hdistinct.1⟩, h.read pages page [] rfl, h.more page (by simp), ?_⟩
    · intro before p after hsplit
      exact h.read before p (after ++ [page]) (by rw [hsplit]; simp)
    · intro p hp
      exact h.more p (List.mem_append_left _ hp)
    · intro hmem
      exact hdistinct.2.2 _ hmem _ List.mem_cons_self rfl
  · rintro ⟨h, hread, hne, hfresh⟩
    refine ⟨?_, ?_, ?_⟩
    · intro before p after hsplit
      -- the split is before the new page, or it is at the new page
      rcases List.eq_nil_or_concat after with rfl | ⟨init, last, rfl⟩
      · obtain ⟨rfl, hp⟩ := List.append_inj' hsplit rfl
        obtain rfl := (List.cons.inj hp).1
        exact hread
      · rw [List.concat_eq_append, ← List.cons_append, ← List.append_assoc] at hsplit
        exact h.read before p init (List.append_inj' hsplit rfl).1
    · intro p hp
      rcases List.mem_append.mp hp with hp | hp
      · exact h.more p hp
      · rw [List.mem_singleton.mp hp]
        exact hne
    · rw [List.map_append, List.nodup_append]
      refine ⟨h.distinct, List.nodup_singleton _, ?_⟩
      rintro a ha b hb rfl
      rw [List.map_singleton, List.mem_singleton] at hb
      exact hfresh (hb ▸ ha)

end Chains

/-! ## The loop -/

section Loop

variable {Bytes : Type} (py : Platform Bytes) (cluster : Cluster) (path : String) (pageSize : Int)
  (answer : List ListParams → Json)

/-- What a fetch returned: `None` stands for a failed request. -/
def fetched : Json → Option Json
  | .null => none
  | page => some page

theorem fetched_eq_some {value page : Json} (h : fetched value = some page) : value = page := by
  unfold fetched at h
  split at h
  · exact absurd h (by simp)
  · exact Option.some.inj h

theorem fetched_eq_none {value : Json} (h : fetched value = none) : value = .null := by
  unfold fetched at h
  split at h
  · rfl
  · exact absurd h (by simp)

theorem fetched_of_isPage {page : Json} {items : List Json} {token : String}
    (h : IsPage page items token) : fetched page = some page := by
  cases page with
  | null => exact absurd h.items (by simp [Json.get?])
  | _ => rfl

/-- A fetch that answers each list of requests with a Python value. -/
def answering (requests : List ListParams) : Except Exc (Option Json) :=
  .ok (fetched (answer requests))

/-- The body of the loop when every fetch returns. -/
abbrev answerTurn : ListState → Turn ListState ListOutcome :=
  listTurn py cluster path pageSize (answering answer)

/-- The state of the loop after these pages. -/
def stateAfter (pages : List Page) : ListState :=
  ⟨pages.flatMap Prod.fst, requestsAfter pageSize pages, pages.map Prod.snd⟩

theorem stateAfter_concat (pages : List Page) (page : Page) :
    stateAfter pageSize (pages ++ [page]) =
      ⟨(stateAfter pageSize pages).items ++ page.1,
        (stateAfter pageSize pages).requests ++ [⟨pageSize, some page.2⟩],
        (stateAfter pageSize pages).seenTokens ++ [page.2]⟩ := by
  simp [stateAfter, requestsAfter]

/-- The loop gets to the states after a chain of pages, and to no others. -/
theorem reaches_iff (s : ListState) :
    WhileLoop.Reaches (answerTurn py cluster path pageSize answer) (listStart pageSize) s ↔
      ∃ pages, Followed pageSize answer pages ∧ s = stateAfter pageSize pages := by
  constructor
  · intro h
    refine WhileLoop.Reaches.invariant (fun s => ∃ pages,
      Followed pageSize answer pages ∧ s = stateAfter pageSize pages) ?_ ?_ h
    · rintro s s' ⟨pages, hpages, rfl⟩ hturn
      -- one more page was read, and its token was new
      obtain ⟨page, items, token, hfetch, hpage, hne, hfresh, rfl⟩ :=
        listTurn_eq_next py cluster path pageSize _ hturn
      rw [readPage_eq_ok_iff] at hpage
      refine ⟨pages ++ [(items, token)], ?_, (stateAfter_concat pageSize pages (items, token)).symm⟩
      rw [← fetched_eq_some (Except.ok.inj hfetch)] at hpage
      exact (followed_concat pageSize answer).mpr ⟨hpages, hpage, hne, hfresh⟩
    · exact ⟨[], followed_nil pageSize answer, rfl⟩
  · rintro ⟨pages, hpages, rfl⟩
    -- the last page of the chain is the last turn
    induction pages using List.reverseRecOn with
    | nil => exact Relation.ReflTransGen.refl
    | append_singleton pages page ih =>
        obtain ⟨hbefore, hpage, hne, hfresh⟩ :=
          (followed_concat pageSize answer).mp hpages
        have hturn : answerTurn py cluster path pageSize answer (stateAfter pageSize pages) =
            .next (stateAfter pageSize (pages ++ [page])) := by
          rw [stateAfter_concat]
          exact listTurn_of_page py cluster path pageSize _
            (congrArg Except.ok (fetched_of_isPage hpage))
            ((readPage_eq_ok_iff cluster path _ _ _).mpr hpage) hne hfresh
        exact (ih hbefore).tail hturn

/-- What the loop does in a state it gets to. -/
theorem answerTurn_stateAfter (pages : List Page) :
    answerTurn py cluster path pageSize answer (stateAfter pageSize pages) =
      match fetched (answer (requestsAfter pageSize pages)) with
      | none => .done (.ok ([], false))
      | some body =>
          match readPage cluster path body with
          | .error e => .done (.error e)
          | .ok (items, token) =>
              if token = "" then .done (.ok (pages.flatMap Prod.fst ++ items, true))
              else if token ∈ pages.map Prod.snd then
                .done (malformed cluster path
                  s!"continuation token repeated: {py.repr (.str token)}")
              else .next (stateAfter pageSize (pages ++ [(items, token)])) := by
  simp only [answerTurn, listTurn, answering, stateAfter_concat]
  cases hanswer : fetched (answer (requestsAfter pageSize pages)) with
  | none => simp only [stateAfter, hanswer]
  | some body =>
      simp only [stateAfter, hanswer]
      rfl

/-- A loop that ends has listed everything, has failed with nothing, or raises. -/
theorem cases_of_listsTo {outcome : ListOutcome}
    (h : ListsTo py cluster path pageSize (answering answer) outcome) :
    (∃ items, outcome = .ok (items, true) ∧ Lists pageSize answer items) ∨
      outcome = .ok ([], false) ∧ Fails pageSize answer ∨
      ∃ e, outcome = .error e ∧ e.cls = .kubernetesResponseError := by
  obtain ⟨s, hs, hdone⟩ := WhileLoop.returns_iff.mp h
  obtain ⟨pages, hpages, rfl⟩ := (reaches_iff py cluster path pageSize answer s).mp hs
  change answerTurn py cluster path pageSize answer (stateAfter pageSize pages) = _ at hdone
  -- the loop ended on the answer to the request after some chain of pages
  rw [answerTurn_stateAfter] at hdone
  cases hanswer : fetched (answer (requestsAfter pageSize pages)) with
  | none =>
      rw [hanswer, Turn.done.injEq] at hdone
      exact Or.inr (Or.inl ⟨hdone.symm, pages, hpages, fetched_eq_none hanswer⟩)
  | some body =>
      rw [hanswer] at hdone
      dsimp only at hdone
      cases hpage : readPage cluster path body with
      | error e =>
          rw [hpage, Turn.done.injEq] at hdone
          exact Or.inr (Or.inr ⟨e, hdone.symm, readPage_eq_error cluster path hpage⟩)
      | ok page =>
          obtain ⟨items, token⟩ := page
          rw [hpage] at hdone
          dsimp only at hdone
          rw [readPage_eq_ok_iff, ← fetched_eq_some hanswer] at hpage
          -- the last page has no token; a token seen before ends the listing with an error
          by_cases hempty : token = ""
          · rw [if_pos hempty, Turn.done.injEq] at hdone
            subst hempty
            exact Or.inl ⟨_, hdone.symm, pages, items, hpages, hpage, rfl⟩
          · rw [if_neg hempty] at hdone
            by_cases hseen : token ∈ pages.map Prod.snd
            · rw [if_pos hseen, Turn.done.injEq] at hdone
              exact Or.inr (Or.inr ⟨_, hdone.symm, rfl⟩)
            · rw [if_neg hseen] at hdone
              exact absurd hdone (by simp)

/-- The loop lists the items of a complete chain. -/
theorem listsTo_of_lists {items : List Json} (h : Lists pageSize answer items) :
    ListsTo py cluster path pageSize (answering answer)
      (.ok (items, true)) := by
  obtain ⟨pages, last, hpages, hpage, rfl⟩ := h
  refine WhileLoop.returns_iff.mpr ⟨stateAfter pageSize pages,
    (reaches_iff py cluster path pageSize answer _).mpr ⟨pages, hpages, rfl⟩, ?_⟩
  show answerTurn py cluster path pageSize answer (stateAfter pageSize pages) = _
  rw [answerTurn_stateAfter, fetched_of_isPage hpage]
  dsimp only
  rw [(readPage_eq_ok_iff cluster path _ _ _).mpr hpage]
  exact if_pos rfl

/-- The loop lists nothing after a failed request. -/
theorem listsTo_of_fails (h : Fails pageSize answer) :
    ListsTo py cluster path pageSize (answering answer)
      (.ok ([], false)) := by
  obtain ⟨pages, hpages, hanswer⟩ := h
  refine WhileLoop.returns_iff.mpr ⟨stateAfter pageSize pages,
    (reaches_iff py cluster path pageSize answer _).mpr ⟨pages, hpages, rfl⟩, ?_⟩
  show answerTurn py cluster path pageSize answer (stateAfter pageSize pages) = _
  rw [answerTurn_stateAfter, hanswer]
  rfl

/-- What a listing that ends with this outcome has to be. -/
structure CompleteOrNothing (outcome : ListOutcome) : Prop where
  complete : ∀ items, outcome = .ok (items, true) ↔ Lists pageSize answer items
  failed : outcome = .ok ([], false) ↔ Fails pageSize answer
  malformed : (∀ items, ¬ Lists pageSize answer items) → ¬ Fails pageSize answer →
    ∃ e, outcome = .error e ∧ e.cls = .kubernetesResponseError
  notPartial : ∀ items, outcome = .ok (items, false) → items = []

/-- Whatever a server answers, a listing that ends is complete, or nothing, or an error. -/
theorem listing_complete_or_nothing {outcome : ListOutcome}
    (h : ListsTo py cluster path pageSize (answering answer) outcome) :
    CompleteOrNothing pageSize answer outcome := by
  have hcases := cases_of_listsTo py cluster path pageSize answer h
  refine ⟨fun items => ⟨?_, fun hlists => ?_⟩, ⟨?_, fun hfails => ?_⟩, ?_, ?_⟩
  · rintro rfl
    rcases hcases with ⟨items', heq, hlists⟩ | ⟨heq, _⟩ | ⟨e, heq, _⟩
    · rw [Except.ok.injEq, Prod.mk.injEq] at heq
      rw [heq.1]
      exact hlists
    · exact absurd heq (by simp)
    · exact absurd heq (by simp)
  · exact h.unique (listsTo_of_lists py cluster path pageSize answer hlists)
  · rintro rfl
    rcases hcases with ⟨items, heq, _⟩ | ⟨_, hfails⟩ | ⟨e, heq, _⟩
    · exact absurd heq (by simp)
    · exact hfails
    · exact absurd heq (by simp)
  · exact h.unique (listsTo_of_fails py cluster path pageSize answer hfails)
  · intro hlists hfails
    rcases hcases with ⟨items, _, h⟩ | ⟨_, h⟩ | herror
    · exact absurd h (hlists items)
    · exact absurd h hfails
    · exact herror
  · rintro items rfl
    rcases hcases with ⟨items', heq, _⟩ | ⟨heq, _⟩ | ⟨e, heq, _⟩
    · exact absurd heq (by simp)
    · exact (Prod.mk.inj (Except.ok.inj heq)).1
    · exact absurd heq (by simp)

/-- A server with two pages. -/
def twoPages (requests : List ListParams) : Json :=
  if requests.length = 1 then
    .obj [("items", .arr [.int 1]), ("metadata", .obj [("continue", .str "next")])]
  else .obj [("items", .arr [.int 2])]

/-- Two pages of one item each make a complete listing. -/
theorem listing_complete_or_nothing_twoPages :
    CompleteOrNothing 1 twoPages (.ok ([.int 1, .int 2], true)) := by
  have h : ListsTo Reference.platform ⟨"alpha", none, none⟩ "/workflows" 1
      (answering twoPages) (.ok ([.int 1, .int 2], true)) := ⟨2, rfl⟩
  exact listing_complete_or_nothing _ _ _ _ _ h

end Loop

end ArgoExporter.K8sApi
