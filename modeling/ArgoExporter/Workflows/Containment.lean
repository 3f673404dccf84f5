/-
  ArgoExporter.Workflows.Containment

  When a fault of one cluster's request path stays with that cluster.  Each
  function on the path catches its own classes of exceptions; what none of them
  catches aborts the cycle for all clusters, and a server that never stops
  handing out fresh continuation tokens keeps the listing from ending.
-/

import ArgoExporter.K8sApi.Paging
import ArgoExporter.Workflows.Collection

namespace ArgoExporter.Workflows

open ArgoExporter.Lib
open ArgoExporter.Py
open ArgoExporter.ParquetIo
open ArgoExporter.K8sApi

/-! ## One request -/

section Request

variable {Bytes : Type} (py : Platform Bytes) (cluster : Cluster) (path : String) (timeout : Int)
  (params : ListParams) (attempt : Attempt Bytes)

/-- The HTTP request that is sent, if the credential files let it get that far. -/
inductive Sent : Request → Prop
  | remote {baseUrl : String} (h : cluster.baseUrl = some baseUrl) :
      Sent ⟨baseUrl ++ path, params, none, none, timeout⟩
  | inCluster {text : String} (h : cluster.baseUrl = none)
      (htoken : readText py attempt.token = .ok text) (hne : strip text ≠ "")
      (hca : checkCaBundle attempt.ca = .ok ()) :
      Sent ⟨localApiServer ++ path, params, some ("Bearer " ++ strip text), some saCaPath, timeout⟩

/-- Nothing escapes from the request: the token of the local cluster is UTF-8, the errors of the
    exchange are OS errors, and a body that does not parse fails with a `ValueError`. -/
structure Contained : Prop where
  token : cluster.baseUrl = none → ∀ data, attempt.token = .content data →
    ∃ text, py.decodeUtf8 data = .ok text
  transport : ∀ request, Sent py cluster path timeout params attempt request → ∀ e,
    attempt.get request = .error e → e.cls.isOSError = true ∨ e.cls = .kubernetesResponseError
  body : ∀ request resp, Sent py cluster path timeout params attempt request →
    attempt.get request = .ok resp → resp.statusCode = 200 → ∀ e,
      py.responseJson resp.body = .error e → e.cls.isValueError = true

variable {py cluster path timeout params attempt}

theorem sendRequest_of_sent {request : Request}
    (h : Sent py cluster path timeout params attempt request) :
    sendRequest py cluster path timeout params attempt = attempt.get request := by
  cases h with
  | remote h => rw [sendRequest, h]
  | inCluster h htoken hne hca =>
      rw [sendRequest, h]
      dsimp only
      rw [localRequest, htoken, ok_bind]
      dsimp only
      rw [if_neg hne, hca, ok_bind]

/-- A request that gets to the network is one that was sent. -/
theorem sendRequest_cases (result : Except Exc (Response Bytes))
    (h : sendRequest py cluster path timeout params attempt = result) :
    (∃ request, Sent py cluster path timeout params attempt request ∧
      attempt.get request = result) ∨
    (∃ e, result = .error e ∧ (e.cls = .osError ∨
      cluster.baseUrl = none ∧ ∃ data, attempt.token = .content data ∧
        py.decodeUtf8 data = .error e)) := by
  cases hbase : cluster.baseUrl with
  | some baseUrl =>
      have hsent : Sent py cluster path timeout params attempt
          ⟨baseUrl ++ path, params, none, none, timeout⟩ := .remote hbase
      exact Or.inl ⟨_, hsent, by rw [← sendRequest_of_sent hsent, h]⟩
  | none =>
      -- without a base URL the request goes to the local API server
      have hlocal : localRequest py path params timeout attempt = result := by
        rw [← h, sendRequest, hbase]
      unfold localRequest at hlocal
      cases htoken : readText py attempt.token with
      | error e =>
          rw [htoken, error_bind] at hlocal
          refine Or.inr ⟨e, hlocal.symm, ?_⟩
          cases hfile : attempt.token with
          | unreadable msg =>
              rw [hfile, readText, raise_eq_error, Except.error.injEq] at htoken
              rw [← htoken]
              exact Or.inl rfl
          | empty =>
              rw [hfile, readText] at htoken
              exact absurd htoken (by simp)
          | content data =>
              rw [hfile, readText] at htoken
              exact Or.inr ⟨rfl, data, rfl, htoken⟩
      | ok text =>
          rw [htoken, ok_bind] at hlocal
          dsimp only at hlocal
          -- a blank token raises the same class as an unreadable one
          by_cases hblank : strip text = ""
          · rw [if_pos hblank] at hlocal
            exact Or.inr ⟨_, hlocal.symm, Or.inl rfl⟩
          · rw [if_neg hblank] at hlocal
            cases hca : checkCaBundle attempt.ca with
            | error e =>
                rw [hca, error_bind] at hlocal
                refine Or.inr ⟨e, hlocal.symm, Or.inl ?_⟩
                cases hfile : attempt.ca with
                | content data => rw [hfile, checkCaBundle] at hca; exact absurd hca (by simp)
                | unreadable msg =>
                    rw [hfile, checkCaBundle, raise_eq_error, Except.error.injEq] at hca
                    rw [← hca]
                | empty =>
                    rw [hfile, checkCaBundle, raise_eq_error, Except.error.injEq] at hca
                    rw [← hca]
            | ok u =>
                rw [hca, ok_bind] at hlocal
                exact Or.inl ⟨_, Sent.inCluster hbase htoken hblank hca, hlocal⟩

theorem fetchJson_of_error {e : Exc}
    (h : sendRequest py cluster path timeout params attempt = .error e)
    (hos : ¬ e.cls.isOSError = true) :
    fetchJson py cluster path timeout params attempt = .error e := by
  simp only [fetchJson, h, hos]
  rfl

/-- The only exception that leaves a contained request is the one its callers expect. -/
theorem fetchJson_handled_iff (hutf : Utf8Strict py) :
    (∀ e, fetchJson py cluster path timeout params attempt = .error e →
      e.cls = .kubernetesResponseError) ↔ Contained py cluster path timeout params attempt := by
  constructor
  · intro hall
    refine ⟨fun hbase data hdata => ?_, fun request hsent e he => ?_,
      fun request resp hsent hget hstatus e he => ?_⟩
    -- a token that is not UTF-8 is not an OSError, so nothing would catch it
    · cases hdecode : py.decodeUtf8 data with
      | ok text => exact ⟨text, rfl⟩
      | error e =>
          have hcls := hutf data e hdecode
          have hsend : sendRequest py cluster path timeout params attempt = .error e := by
            rw [sendRequest, hbase]
            dsimp only
            rw [localRequest, hdata, readText, hdecode, error_bind]
          have := hall e (fetchJson_of_error hsend (by rw [hcls]; decide))
          rw [hcls] at this
          exact absurd this (by decide)
    · by_cases hos : e.cls.isOSError = true
      · exact Or.inl hos
      · rw [← sendRequest_of_sent hsent] at he
        exact Or.inr (hall e (fetchJson_of_error he hos))
    · by_contra hvalue
      rw [← sendRequest_of_sent hsent] at hget
      have hfetch : fetchJson py cluster path timeout params attempt = .error e := by
        simp only [fetchJson, hget, hstatus, ne_eq, not_true_eq_false, if_false, he, hvalue]
        rfl
      rw [hall e hfetch] at hvalue
      exact hvalue rfl
  · intro hc e he
    cases hsend : sendRequest py cluster path timeout params attempt with
    -- the request was not answered
    | error e' =>
        simp only [fetchJson, hsend] at he
        by_cases hos : e'.cls.isOSError = true
        · rw [if_pos hos] at he
          exact absurd he (by simp)
        · rw [if_neg hos, Except.error.injEq] at he
          subst he
          rcases sendRequest_cases _ hsend with ⟨request, hsent, hget⟩ | ⟨e'', he'', hcase⟩
          · exact (hc.transport request hsent e' hget).resolve_left hos
          · rw [Except.error.injEq] at he''
            subst he''
            rcases hcase with hcls | ⟨hbase, data, hdata, hdecode⟩
            · exact absurd (by rw [hcls]; rfl) hos
            · obtain ⟨text, htext⟩ := hc.token hbase data hdata
              rw [htext] at hdecode
              exact absurd hdecode (by simp)
    -- an answer is refused for its status or for its body
    | ok resp =>
        rcases sendRequest_cases _ hsend with ⟨request, hsent, hget⟩ | ⟨e'', he'', _⟩
        · simp only [fetchJson, hsend] at he
          by_cases hstatus : resp.statusCode = 200
          · rw [if_neg (not_not_intro hstatus)] at he
            cases hparse : py.responseJson resp.body with
            | error e' =>
                have hvalue := hc.body request resp hsent hget hstatus e' hparse
                simp only [hparse, hvalue, if_true, raise_eq_error, Except.error.injEq] at he
                rw [← he]
            | ok v =>
                rw [hparse] at he
                cases v with
                | null =>
                    simp only [raise_eq_error, Except.error.injEq] at he
                    rw [← he]
                | _ => exact absurd he (by simp)
          · rw [if_pos hstatus] at he
            exact absurd he (by simp)
        · exact absurd he'' (by simp)

end Request

/-! ## One cluster among others -/

section Listing

variable {Bytes : Type} (py : Platform Bytes) (observedAt : String)
  (before after : List (Cluster × ListOutcome)) (cluster : Cluster)

/-- Collection returns, and the other clusters give the same rows and entries as when this one is
    unavailable. -/
def KeepsOthers (outcome : ListOutcome) : Prop :=
  ∃ rowsBefore statsBefore rowsAfter statsAfter mine entry,
    fetchWorkflows py observedAt before = .ok (rowsBefore, statsBefore) ∧
    fetchWorkflows py observedAt after = .ok (rowsAfter, statsAfter) ∧
    fetchWorkflows py observedAt (before ++ (cluster, outcome) :: after) =
      .ok (rowsBefore ++ (mine ++ rowsAfter), statsBefore ++ entry :: statsAfter) ∧
    entry.name = cluster.name ∧ (entry.ok = false → mine = []) ∧
    fetchWorkflows py observedAt (before ++ (cluster, .ok ([], false)) :: after) =
      .ok (rowsBefore ++ rowsAfter, statsBefore ++ ⟨cluster.name, false, 0⟩ :: statsAfter)

variable {before after}

theorem fetchWorkflows_around (hbefore : ∀ a ∈ before, Handled a.2)
    (hafter : ∀ a ∈ after, Handled a.2) :
    ∃ rowsBefore statsBefore rowsAfter statsAfter,
      fetchWorkflows py observedAt before = .ok (rowsBefore, statsBefore) ∧
      fetchWorkflows py observedAt after = .ok (rowsAfter, statsAfter) ∧
      ∀ outcome mine entry, collectCluster py observedAt cluster outcome = .ok (mine, entry) →
        fetchWorkflows py observedAt (before ++ (cluster, outcome) :: after) =
          .ok (rowsBefore ++ (mine ++ rowsAfter), statsBefore ++ entry :: statsAfter) := by
  obtain ⟨partsBefore, _, hloopBefore⟩ := foldlM_collectStep py observedAt before hbefore
  obtain ⟨partsAfter, _, hloopAfter⟩ := foldlM_collectStep py observedAt after hafter
  refine ⟨_, _, _, _, hloopBefore [] [], hloopAfter [] [], fun outcome mine entry hcollect => ?_⟩
  rw [fetchWorkflows, List.foldlM_append, hloopBefore, ok_bind, List.foldlM_cons, collectStep]
  dsimp only
  rw [hcollect, ok_bind]
  dsimp only
  rw [pure_eq_ok, ok_bind, hloopAfter]
  simp [List.append_assoc]

/-- Collection returns only if this cluster's exception, if any, is one that it handles. -/
theorem handled_of_fetchWorkflows (hbefore : ∀ a ∈ before, Handled a.2) {outcome : ListOutcome}
    {result : List SnapshotRow × List ClusterStat}
    (h : fetchWorkflows py observedAt (before ++ (cluster, outcome) :: after) = .ok result) :
    Handled outcome := by
  obtain ⟨_, _, hloopBefore⟩ := foldlM_collectStep py observedAt before hbefore
  rw [fetchWorkflows, List.foldlM_append, hloopBefore, ok_bind, List.foldlM_cons] at h
  obtain ⟨_, hstep, _⟩ := bind_eq_ok.mp h
  obtain ⟨part, hcollect, _⟩ := bind_eq_ok.mp hstep
  intro e he
  by_contra hcls
  rw [he, collectCluster, if_neg hcls] at hcollect
  exact absurd hcollect (by simp)

/-- The others are kept exactly when the listing's outcome is one that is handled. -/
theorem keepsOthers_iff (hbefore : ∀ a ∈ before, Handled a.2) (hafter : ∀ a ∈ after, Handled a.2)
    (outcome : ListOutcome) :
    KeepsOthers py observedAt before after cluster outcome ↔ Handled outcome := by
  constructor
  · rintro ⟨_, _, _, _, _, _, _, _, h, _⟩
    exact handled_of_fetchWorkflows py observedAt cluster hbefore h
  · intro houtcome
    obtain ⟨rowsBefore, statsBefore, rowsAfter, statsAfter, hb, ha, haround⟩ :=
      fetchWorkflows_around py observedAt cluster hbefore hafter
    obtain ⟨mine, entry, hcollect, hc⟩ :=
      collectCluster_spec py observedAt (cluster, outcome) houtcome
    refine ⟨rowsBefore, statsBefore, rowsAfter, statsAfter, mine, entry, hb, ha,
      haround outcome mine entry hcollect, hc.name, fun hok => (hc.nothing_of_not_ok hok).1, ?_⟩
    exact haround (.ok ([], false)) [] ⟨cluster.name, false, 0⟩ rfl

/-! ## Every behaviour of a cluster -/

variable (path : String) (timeout pageSize : Int) (behaviour : List ListParams → Attempt Bytes)

/-- The requests the listing makes, with this behaviour of the cluster. -/
abbrev AskedOf (requests : List ListParams) : Prop :=
  Asked cluster path pageSize (fetchPage py cluster path timeout behaviour) requests

/-- Every request that the listing makes is contained, and there are finitely many. -/
structure BehavesWithin : Prop where
  contained : ∀ requests, AskedOf py cluster path timeout pageSize behaviour requests →
    Contained py cluster path timeout (requests.getLastD ⟨0, none⟩) (behaviour requests)
  finite : ∃ bound, ∀ requests, AskedOf py cluster path timeout pageSize behaviour requests →
    requests.length ≤ bound

/-- Listing the cluster ends, and what it ends with leaves the other clusters alone. -/
def FaultStaysLocal (before after : List (Cluster × ListOutcome)) : Prop :=
  ∃ outcome, ListsTo py cluster path pageSize (fetchPage py cluster path timeout behaviour) outcome ∧
    KeepsOthers py observedAt before after cluster outcome

theorem handled_of_behavesWithin (hutf : Utf8Strict py)
    (h : BehavesWithin py cluster path timeout pageSize behaviour) {outcome : ListOutcome}
    (hlist : ListsTo py cluster path pageSize (fetchPage py cluster path timeout behaviour)
      outcome) : Handled outcome := by
  intro e he
  rw [he] at hlist
  obtain ⟨s, hs, hdone⟩ := WhileLoop.returns_iff.mp hlist
  rcases listTurn_eq_error py cluster path pageSize _ hdone with hfetch | hcls
  · have hasked := (asked_iff_reaches py cluster path pageSize
      (fetchPage py cluster path timeout behaviour) s.requests).mpr ⟨s, hs, rfl⟩
    exact (fetchJson_handled_iff hutf).mpr (h.contained _ hasked) e hfetch
  · exact hcls

/-- A request whose exception nobody expects takes the whole collection down. -/
theorem FaultStaysLocal.fetch_handled (hbefore : ∀ a ∈ before, Handled a.2)
    (hafter : ∀ a ∈ after, Handled a.2)
    (h : FaultStaysLocal py observedAt cluster path timeout pageSize behaviour before after)
    {requests : List ListParams}
    (hasked : AskedOf py cluster path timeout pageSize behaviour requests) {e : Exc}
    (hfetch : fetchPage py cluster path timeout behaviour requests = .error e) :
    e.cls = .kubernetesResponseError := by
  obtain ⟨outcome, hlist, hkeeps⟩ := h
  have houtcome := (keepsOthers_iff py observedAt cluster hbefore hafter outcome).mp hkeeps
  obtain ⟨s, hs, rfl⟩ := (asked_iff_reaches py cluster path pageSize
    (fetchPage py cluster path timeout behaviour) requests).mp hasked
  have hturn : listTurn py cluster path pageSize
      (fetchPage py cluster path timeout behaviour) s = .done (.error e) := by
    simp only [listTurn, hfetch]
  exact houtcome e (WhileLoop.Returns.unique hlist (WhileLoop.returns_iff.mpr ⟨s, hs, hturn⟩))

/-- A fault stays with its cluster exactly when the cluster's behaviour is within what the request
    path catches. -/
theorem faultStaysLocal_iff (hutf : Utf8Strict py) (hbefore : ∀ a ∈ before, Handled a.2)
    (hafter : ∀ a ∈ after, Handled a.2) :
    FaultStaysLocal py observedAt cluster path timeout pageSize behaviour before after ↔
      BehavesWithin py cluster path timeout pageSize behaviour := by
  constructor
  · intro h
    refine ⟨fun requests hasked => ?_, ?_⟩
    · rw [← fetchJson_handled_iff hutf]
      intro e hfetch
      exact h.fetch_handled py observedAt cluster path timeout pageSize behaviour hbefore hafter
        hasked hfetch
    · obtain ⟨outcome, hlist, _⟩ := h
      exact (listsTo_iff_bounded py cluster path pageSize _).mp ⟨outcome, hlist⟩
  · intro h
    obtain ⟨outcome, hlist⟩ := (listsTo_iff_bounded py cluster path pageSize
      (fetchPage py cluster path timeout behaviour)).mpr h.finite
    refine ⟨outcome, hlist, (keepsOthers_iff py observedAt cluster hbefore hafter outcome).mpr ?_⟩
    exact handled_of_behavesWithin py cluster path timeout pageSize behaviour hutf h hlist

end Listing

/-- A cluster whose connections fail. -/
def unreachable : List ListParams → Attempt Reference.TaggedBytes := fun _ =>
  ⟨.empty, .empty, fun _ => raise .requestException "connection refused"⟩

/-- A request that is refused is contained, and the only one. -/
theorem behavesWithin_unreachable :
    BehavesWithin Reference.platform ⟨"delta", some "https://delta", none⟩
      (listPath "ci" "workflows") 10 500 unreachable where
  contained := by
    intro requests _
    refine (fetchJson_handled_iff Reference.utf8Strict).mp fun e he => ?_
    have hrefused : fetchJson Reference.platform ⟨"delta", some "https://delta", none⟩
        (listPath "ci" "workflows") 10 (requests.getLastD ⟨0, none⟩) (unreachable requests) =
          .ok none := rfl
    exact absurd (hrefused.symm.trans he) (by simp)
  finite := (listsTo_iff_bounded Reference.platform _ _ _ _).mp ⟨.ok ([], false), 1, rfl⟩

/-- A cluster whose connections fail leaves the three others alone. -/
theorem faultStaysLocal_iff_unreachable :
    FaultStaysLocal Reference.platform "2026-01-01T00:00:00Z" ⟨"delta", some "https://delta", none⟩
      (listPath "ci" "workflows") 10 500 unreachable sampleAnswers [] :=
  (faultStaysLocal_iff Reference.platform "2026-01-01T00:00:00Z"
    ⟨"delta", some "https://delta", none⟩ (listPath "ci" "workflows") 10 500 unreachable
    Reference.utf8Strict sampleAnswers_handled (by simp)).mpr behavesWithin_unreachable

/-- The pod's own cluster with a token file that is not UTF-8. -/
def binaryToken : List ListParams → Attempt Reference.TaggedBytes := fun _ =>
  ⟨.content (.json .null), .content (.text "ca"), fun _ => raise .requestException "not sent"⟩

/-- A cluster that answers every request with the same body. -/
def answering (body : Reference.TaggedBytes) : List ListParams → Attempt Reference.TaggedBytes :=
  fun _ => ⟨.empty, .empty, fun _ => .ok ⟨200, body⟩⟩

/-- A platform on which bodies are nested too deeply to decode. -/
def deeplyNested : Platform Reference.TaggedBytes :=
  { Reference.platform with
    responseJson := fun _ => raise .recursionError "maximum recursion depth exceeded" }

/-- Two faults of one cluster that abort the collection of all: a token file that is not UTF-8, and
    a body nested too deeply for the JSON decoder. -/
theorem fault_may_escape :
    (¬ ∀ behaviour, FaultStaysLocal Reference.platform "2026-01-01T00:00:00Z"
      ⟨"gamma", none, none⟩ (listPath "" "workflows") 10 500 behaviour [] []) ∧
    (¬ ∀ behaviour, FaultStaysLocal deeplyNested "2026-01-01T00:00:00Z"
      ⟨"alpha", some "https://alpha", none⟩ (listPath "" "workflows") 10 500 behaviour [] []) := by
  refine ⟨fun h => ?_, fun h => ?_⟩
  · have := (h binaryToken).fetch_handled Reference.platform _ _ _ _ _ _ (by simp) (by simp)
      .first rfl
    exact absurd this (by decide)
  · have := (h (answering (.text "[[["))).fetch_handled deeplyNested _ _ _ _ _ _ (by simp)
      (by simp) .first rfl
    exact absurd this (by decide)

end ArgoExporter.Workflows
