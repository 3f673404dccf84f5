/-
  ArgoExporter.K8sApi

  `k8s_api.py`: one request to a cluster's API server and the paging loop of
  a list endpoint.  What the outside world does is an input: `Attempt` is what
  one request meets (credential files and the HTTP exchange), and the paging
  loop asks a function of the requests made so far, so a server may change its
  answers from request to request.
-/

import ArgoExporter.Config
import ArgoExporter.Lib.WhileLoop

namespace ArgoExporter.K8sApi

open ArgoExporter.Py
open ArgoExporter.Lib

def saTokenPath : String := "/var/run/secrets/kubernetes.io/serviceaccount/token"
def saCaPath : String := "/var/run/secrets/kubernetes.io/serviceaccount/ca.crt"
def localApiServer : String := "https://kubernetes.default.svc"

/-! ## One request -/

/-- Query parameters of a list request. -/
structure ListParams where
  limit : Int
  «continue» : Option String
  deriving DecidableEq

/-- What `requests.get` is called with. -/
structure Request where
  url : String
  params : ListParams
  authorization : Option String
  verify : Option String
  timeout : Int

structure Response (Bytes : Type) where
  statusCode : Int
  body : Bytes

/-- A credential file at the moment it is opened. -/
inductive FileState (Bytes : Type) where
  | unreadable (msg : String)
  | empty
  | content (data : Bytes)

/-- What one request meets: the two credential files and the HTTP exchange. -/
structure Attempt (Bytes : Type) where
  token : FileState Bytes
  ca : FileState Bytes
  get : Request → Except Exc (Response Bytes)

section Requests

variable {Bytes : Type} (py : Platform Bytes)

/-- `open(path, encoding="utf-8").read()`. -/
def readText (file : FileState Bytes) : Except Exc String :=
  match file with
  | .unreadable msg => raise .osError msg
  | .empty => .ok ""
  | .content data => py.decodeUtf8 data

/-- The check that a binary file can be opened and has a first byte. -/
def checkCaBundle (file : FileState Bytes) : Except Exc Unit :=
  match file with
  | .unreadable msg => raise .osError msg
  | .empty => raise .osError s!"in-cluster CA bundle is empty: {saCaPath}"
  | .content _ => .ok ()

def localRequest (path : String) (params : ListParams) (timeout : Int)
    (attempt : Attempt Bytes) : Except Exc (Response Bytes) := do
  let token := strip (← readText py attempt.token)
  if token = "" then
    raise .osError s!"in-cluster ServiceAccount token is empty: {saTokenPath}"
  else
    checkCaBundle attempt.ca
    attempt.get ⟨localApiServer ++ path, params, some ("Bearer " ++ token), some saCaPath, timeout⟩

/-- The request of `fetch_json`, local or to the cluster's base URL. -/
def sendRequest (cluster : Cluster) (path : String) (timeout : Int) (params : ListParams)
    (attempt : Attempt Bytes) : Except Exc (Response Bytes) :=
  match cluster.baseUrl with
  | none => localRequest py path params timeout attempt
  | some baseUrl => attempt.get ⟨baseUrl ++ path, params, none, none, timeout⟩

/-- The body of a 200 response, `none` after a failed request or any other status. -/
def fetchJson (cluster : Cluster) (path : String) (timeout : Int) (params : ListParams)
    (attempt : Attempt Bytes) : Except Exc (Option Json) :=
  match sendRequest py cluster path timeout params attempt with
  | .error e => if e.cls.isOSError then .ok none else .error e
  | .ok resp =>
      if resp.statusCode ≠ 200 then .ok none
      else
        match py.responseJson resp.body with
        | .error e =>
            if e.cls.isValueError then
              raise .kubernetesResponseError
                s!"{cluster.name}: invalid JSON response from {path}: {e.msg}"
            else .error e
        -- a JSON null must not pass for the failed-request sentinel
        | .ok .null => raise .kubernetesResponseError
            s!"{cluster.name}: malformed JSON response from {path}: expected an object"
        | .ok body => .ok (some body)

end Requests

/-! ## Paging -/

/-- List endpoint of an argoproj.io resource; an empty namespace is the whole cluster. -/
def listPath (ns plural : String) : String :=
  let group := "/apis/argoproj.io/v1alpha1"
  if ns = "" then s!"{group}/{plural}" else s!"{group}/namespaces/{ns}/{plural}"

section Paging

variable {Bytes : Type} (py : Platform Bytes) (cluster : Cluster) (path : String)

def malformed {α : Type} (detail : String) : Except Exc α :=
  raise .kubernetesResponseError
    s!"{cluster.name}: malformed list response from {path}: {detail}"

/-- The continuation token of a page's metadata; empty when there is no next page. -/
def continueToken (metadata : Json) : Except Exc String :=
  match metadata with
  | .null => .ok ""
  | .obj _ =>
      match metadata.get? "continue" with
      | none => .ok ""
      | some (.str token) =>
          if token ≠ "" ∧ strip token = "" then
            malformed cluster path "'metadata.continue' must not be whitespace"
          else .ok token
      | some _ => malformed cluster path "'metadata.continue' must be a string"
  | v => malformed cluster path s!"'metadata' must be a JSON object, got {v.typeName}"

/-- Items and continuation token of one page. -/
def readPage (page : Json) : Except Exc (List Json × String) :=
  match page with
  | .obj _ =>
      match page.get? "items" with
      | none => malformed cluster path "missing 'items'"
      | some (.arr pageItems) => do
          let token ← continueToken cluster path (page.get "metadata")
          return (pageItems, token)
      | some v => malformed cluster path s!"'items' must be a JSON array, got {v.typeName}"
  | v => malformed cluster path s!"expected a JSON object, got {v.typeName}"

/-- State of the paging loop: `requests` ends with the request about to be made. -/
structure ListState where
  items : List Json
  requests : List ListParams
  seenTokens : List String

/-- What `list_items` returns or raises. -/
abbrev ListOutcome := Except Exc (List Json × Bool)

variable (pageSize : Int) (fetch : List ListParams → Except Exc (Option Json))

/-- One pass of the paging loop. -/
def listTurn (s : ListState) : Turn ListState ListOutcome :=
  match fetch s.requests with
  | .error e => .done (.error e)
  | .ok none => .done (.ok ([], false))
  | .ok (some page) =>
      match readPage cluster path page with
      | .error e => .done (.error e)
      | .ok (pageItems, token) =>
          if token = "" then .done (.ok (s.items ++ pageItems, true))
          else if token ∈ s.seenTokens then
            .done (malformed cluster path s!"continuation token repeated: {py.repr (.str token)}")
          else
            .next ⟨s.items ++ pageItems, s.requests ++ [⟨pageSize, some token⟩],
              s.seenTokens ++ [token]⟩

def listStart : ListState := ⟨[], [⟨pageSize, none⟩], []⟩

/-- `list_items` with fuel for the number of pages. -/
def listItems (fuel : Nat) : Option ListOutcome :=
  WhileLoop.run (listTurn py cluster path pageSize fetch) fuel (listStart pageSize)

/-- `list_items` ends with this outcome. -/
def ListsTo (outcome : ListOutcome) : Prop :=
  WhileLoop.Returns (listTurn py cluster path pageSize fetch) (listStart pageSize) outcome

end Paging

/-- The requests of one cluster as the `fetch` function of the paging loop. -/
def fetchPage {Bytes : Type} (py : Platform Bytes) (cluster : Cluster) (path : String)
    (timeout : Int) (behaviour : List ListParams → Attempt Bytes) (requests : List ListParams) :
    Except Exc (Option Json) :=
  fetchJson py cluster path timeout (requests.getLastD ⟨0, none⟩) (behaviour requests)

end ArgoExporter.K8sApi
