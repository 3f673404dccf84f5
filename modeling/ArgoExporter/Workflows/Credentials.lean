/-
  ArgoExporter.Workflows.Credentials

  Where the ServiceAccount of the pod goes.  Of all requests of a collection
  those to the local API server carry the token and no other does, and what the
  credential files hold makes no difference to any other cluster.
-/

import ArgoExporter.Config.Accepted
import ArgoExporter.Ledger.Locality
import ArgoExporter.Workflows.Collected
import ArgoExporter.Workflows.Containment

namespace ArgoExporter.Workflows

open ArgoExporter.Lib
open ArgoExporter.Py
open ArgoExporter.ParquetIo
open ArgoExporter.K8sApi

/-! ## Specification -/

/-- What the requests to every cluster meet: the credential files at that moment and the network. -/
abbrev Surroundings (Bytes : Type) := Cluster → List ListParams → Attempt Bytes

/-- The network is the same; the credential files may hold anything, or be missing, at any request. -/
def SameNetwork {Bytes : Type} (world world' : Surroundings Bytes) : Prop :=
  ∀ cluster requests, (world cluster requests).get = (world' cluster requests).get

section Collection

variable {Bytes : Type} (py : Platform Bytes) (cfg : Config) (world : Surroundings Bytes)

/-- The collection sends this request while listing the cluster. -/
structure Sends (cluster : Cluster) (requests : List ListParams) (request : Request) : Prop where
  configured : cluster ∈ cfg.clusters
  asked : AskedOf py cluster (clusterPath cluster cfg.namespace) cfg.httpTimeoutSeconds cfg.pageSize
    (world cluster) requests
  sent : Sent py cluster (clusterPath cluster cfg.namespace) cfg.httpTimeoutSeconds
    (requests.getLastD ⟨0, none⟩) (world cluster requests) request

/-- The listing of a cluster ends with this outcome. -/
def Lists (cluster : Cluster) (outcome : ListOutcome) : Prop :=
  ListsTo py cluster (clusterPath cluster cfg.namespace) cfg.pageSize
    (fetchPage py cluster (clusterPath cluster cfg.namespace) cfg.httpTimeoutSeconds
      (world cluster)) outcome

/-- One collection of all configured clusters. -/
def Collects (observedAt : String) (rows : List SnapshotRow) (stats : List ClusterStat) : Prop :=
  ∃ answers, answers.map Prod.fst = cfg.clusters ∧
    (∀ a ∈ answers, Lists py cfg world a.1 a.2) ∧
    fetchWorkflows py observedAt answers = .ok (rows, stats)

/-- The request carries the token that its token file held, to the local API server only, over a
    connection verified with the CA of the ServiceAccount. -/
structure CarriesToken (cluster : Cluster) (requests : List ListParams) (request : Request) :
    Prop where
  url : request.url = localApiServer ++ clusterPath cluster cfg.namespace
  verify : request.verify = some saCaPath
  token : ∃ text, readText py (world cluster requests).token = .ok text ∧ strip text ≠ "" ∧
    request.authorization = some ("Bearer " ++ strip text)

/-- The request is anonymous and goes to the cluster's own base URL. -/
structure IsAnonymous (cluster : Cluster) (request : Request) : Prop where
  url : ∃ baseUrl, cluster.baseUrl = some baseUrl ∧
    request.url = baseUrl ++ clusterPath cluster cfg.namespace
  authorization : request.authorization = none
  verify : request.verify = none

end Collection

variable {Bytes : Type} {py : Platform Bytes} {cfg : Config} {world world' : Surroundings Bytes}

/-! ## Requests -/

theorem Sends.carriesToken {cluster : Cluster} {requests : List ListParams} {request : Request}
    (h : Sends py cfg world cluster requests request) (hlocal : cluster.baseUrl = none) :
    CarriesToken py cfg world cluster requests request := by
  cases h.sent with
  | remote hremote => exact absurd (hlocal.symm.trans hremote) (by simp)
  | inCluster _ htoken hne _ => exact ⟨rfl, rfl, _, htoken, hne, rfl⟩

theorem Sends.isAnonymous {cluster : Cluster} {requests : List ListParams} {request : Request}
    (h : Sends py cfg world cluster requests request) (hremote : cluster.baseUrl ≠ none) :
    IsAnonymous cfg cluster request := by
  cases h.sent with
  | remote hurl => exact ⟨⟨_, hurl, rfl⟩, rfl, rfl⟩
  | inCluster hlocal _ _ _ => exact absurd hlocal hremote

/-! ## Other clusters -/

/-- The page of a remote cluster does not depend on the credential files. -/
theorem fetchPage_remote (h : SameNetwork world world') {cluster : Cluster}
    (hremote : cluster.baseUrl ≠ none) (path : String) (timeout : Int) :
    fetchPage py cluster path timeout (world cluster) =
      fetchPage py cluster path timeout (world' cluster) := by
  obtain ⟨baseUrl, hurl⟩ := Option.ne_none_iff_exists'.mp hremote
  funext requests
  have hsend : sendRequest py cluster path timeout (requests.getLastD ⟨0, none⟩)
      (world cluster requests) = sendRequest py cluster path timeout
        (requests.getLastD ⟨0, none⟩) (world' cluster requests) := by
    rw [sendRequest, sendRequest, hurl]
    exact congrFun (h cluster requests) _
  rw [fetchPage, fetchPage, fetchJson, fetchJson, hsend]

theorem lists_remote_iff (h : SameNetwork world world') {cluster : Cluster}
    (hremote : cluster.baseUrl ≠ none) (outcome : ListOutcome) :
    Lists py cfg world cluster outcome ↔ Lists py cfg world' cluster outcome := by
  rw [Lists, Lists, fetchPage_remote h hremote]

theorem Sends.of_sameNetwork (h : SameNetwork world world') {cluster : Cluster}
    (hremote : cluster.baseUrl ≠ none) {requests : List ListParams} {request : Request}
    (hsends : Sends py cfg world cluster requests request) :
    Sends py cfg world' cluster requests request where
  configured := hsends.configured
  asked := by
    have hasked := hsends.asked
    rw [AskedOf, fetchPage_remote h hremote] at hasked
    exact hasked
  sent := by
    cases hsends.sent with
    | remote hurl => exact .remote hurl
    | inCluster hlocal _ _ _ => exact absurd hlocal hremote

/-! ## Rows of one cluster -/

/-- The parts that the answers add to a collection, in their order. -/
theorem parts_of_foldlM {observedAt : String} {answers : List (Cluster × ListOutcome)}
    {start result : List SnapshotRow × List ClusterStat}
    (h : answers.foldlM (collectStep py observedAt) start = .ok result) :
    ∃ parts, List.Forall₂ (fun a part => collectCluster py observedAt a.1 a.2 = .ok part) answers
        parts ∧ result = (start.1 ++ parts.flatMap Prod.fst, start.2 ++ parts.map Prod.snd) := by
  induction answers generalizing start with
  | nil =>
      rw [List.foldlM_nil, pure_eq_ok, Except.ok.injEq] at h
      exact ⟨[], .nil, by rw [← h, List.flatMap_nil, List.map_nil, List.append_nil, List.append_nil]⟩
  | cons a answers ih =>
      rw [List.foldlM_cons] at h
      obtain ⟨next, hnext, h⟩ := bind_eq_ok.mp h
      obtain ⟨⟨clusterRows, stat⟩, hpart, hret⟩ := bind_eq_ok.mp hnext
      dsimp only at hret
      rw [pure_eq_ok, Except.ok.injEq] at hret
      obtain ⟨parts, hparts, hresult⟩ := ih h
      refine ⟨(clusterRows, stat) :: parts, .cons hpart hparts, ?_⟩
      rw [hresult, ← hret, List.flatMap_cons, List.map_cons, List.append_assoc, List.append_assoc]
      rfl

/-- The part of a cluster has the cluster's name on its rows and on its entry. -/
theorem named_collectCluster {observedAt : String} {cluster : Cluster} {outcome : ListOutcome}
    {part : List SnapshotRow × ClusterStat}
    (h : collectCluster py observedAt cluster outcome = .ok part) :
    (∀ row ∈ part.1, row.shared.cluster = .str cluster.name) ∧ part.2.name = cluster.name := by
  have hfetch : fetchWorkflows py observedAt [(cluster, outcome)] = .ok (part.1, [part.2]) := by
    rw [fetchWorkflows, List.foldlM_cons, collectStep, h]
    rfl
  have hcollected := collected_of_fetch hfetch
  have hname : part.2.name = cluster.name := (List.cons.inj hcollected.names).1
  refine ⟨fun row hrow => ?_, hname⟩
  obtain ⟨stat, hstat, _, hcluster⟩ := hcollected.available row hrow
  rw [hcluster, List.mem_singleton.mp hstat, hname]

theorem observedOf_eq_self {name : String} {rows : List SnapshotRow}
    (h : ∀ row ∈ rows, row.shared.cluster = .str name) : Ledger.observedOf name rows = rows := by
  refine List.filter_eq_self.mpr fun row hrow => ?_
  rw [Ledger.ofCluster, h row hrow]
  exact decide_eq_true rfl

theorem observedOf_eq_nil {name other : String} (hne : other ≠ name) {rows : List SnapshotRow}
    (h : ∀ row ∈ rows, row.shared.cluster = .str other) : Ledger.observedOf name rows = [] := by
  refine List.filter_eq_nil_iff.mpr fun row hrow => ?_
  rw [Ledger.ofCluster, h row hrow]
  simpa using hne

/-- Clusters that are not in the collection have no rows and no entry in it. -/
theorem nothing_of_others {observedAt : String} {answers : List (Cluster × ListOutcome)}
    {parts : List (List SnapshotRow × ClusterStat)}
    (hparts : List.Forall₂ (fun a part => collectCluster py observedAt a.1 a.2 = .ok part) answers
      parts) {name : String} (hname : name ∉ answers.map fun a => a.1.name) :
    Ledger.observedOf name (parts.flatMap Prod.fst) = [] ∧
      (parts.map Prod.snd).filter (fun stat => stat.name = name) = [] := by
  induction hparts with
  | nil => exact ⟨rfl, rfl⟩
  | @cons a part answers parts hpart _ ih =>
      rw [List.map_cons, List.mem_cons, not_or] at hname
      obtain ⟨hrows, hstats⟩ := ih hname.2
      obtain ⟨hcluster, hstat⟩ := named_collectCluster hpart
      constructor
      · rw [List.flatMap_cons, Ledger.observedOf, List.filter_append]
        exact List.append_eq_nil_iff.mpr ⟨observedOf_eq_nil (Ne.symm hname.1) hcluster, hrows⟩
      · rw [List.map_cons, List.filter_cons_of_neg (by simpa [hstat] using Ne.symm hname.1)]
        exact hstats

/-- Of a collection over clusters with distinct names, the rows and the entry of one cluster are what
    its own listing gives. -/
theorem rows_of_cluster {observedAt : String} {answers : List (Cluster × ListOutcome)}
    {parts : List (List SnapshotRow × ClusterStat)}
    (hparts : List.Forall₂ (fun a part => collectCluster py observedAt a.1 a.2 = .ok part) answers
      parts)
    (hnd : (answers.map fun a => a.1.name).Nodup) {answer : Cluster × ListOutcome}
    (hanswer : answer ∈ answers) :
    ∃ part, collectCluster py observedAt answer.1 answer.2 = .ok part ∧
      Ledger.observedOf answer.1.name (parts.flatMap Prod.fst) = part.1 ∧
      (parts.map Prod.snd).filter (fun stat => stat.name = answer.1.name) = [part.2] := by
  induction hparts with
  | nil => exact absurd hanswer List.not_mem_nil
  | @cons a part answers parts hpart hrest ih =>
      rw [List.map_cons, List.nodup_cons] at hnd
      obtain ⟨hcluster, hstat⟩ := named_collectCluster hpart
      rw [List.flatMap_cons, List.map_cons]
      rcases List.mem_cons.mp hanswer with rfl | hmem
      -- the part of this cluster, followed by parts of others
      · obtain ⟨hrows, hstats⟩ := nothing_of_others hrest hnd.1
        refine ⟨part, hpart, ?_, ?_⟩
        · rw [Ledger.observedOf, List.filter_append]
          show Ledger.observedOf _ part.1 ++ Ledger.observedOf _ (parts.flatMap Prod.fst) = part.1
          rw [observedOf_eq_self hcluster, hrows, List.append_nil]
        · rw [List.filter_cons_of_pos (by simpa using hstat), hstats]
      · obtain ⟨part', hpart', hrows, hstats⟩ := ih hnd.2 hmem
        have hne : a.1.name ≠ answer.1.name := fun h => hnd.1 (h ▸ List.mem_map_of_mem hmem)
        refine ⟨part', hpart', ?_, ?_⟩
        · rw [Ledger.observedOf, List.filter_append]
          show Ledger.observedOf _ part.1 ++ Ledger.observedOf _ (parts.flatMap Prod.fst) = part'.1
          rw [observedOf_eq_nil hne hcluster, List.nil_append, hrows]
        · rw [List.filter_cons_of_neg (by simpa [hstat] using hne), hstats]

/-- The rows and the entry of a remote cluster are the same whatever the credential files hold. -/
theorem remote_rows_eq (hnames : (cfg.clusters.map Cluster.name).Nodup)
    (h : SameNetwork world world') {observedAt : String} {rows rows' : List SnapshotRow}
    {stats stats' : List ClusterStat} (hcollects : Collects py cfg world observedAt rows stats)
    (hcollects' : Collects py cfg world' observedAt rows' stats') {cluster : Cluster}
    (hcluster : cluster ∈ cfg.clusters) (hremote : cluster.baseUrl ≠ none) :
    Ledger.observedOf cluster.name rows = Ledger.observedOf cluster.name rows' ∧
      stats.filter (fun stat => stat.name = cluster.name) =
        stats'.filter (fun stat => stat.name = cluster.name) := by
  obtain ⟨answers, hanswers, hlists, hfetch⟩ := hcollects
  obtain ⟨answers', hanswers', hlists', hfetch'⟩ := hcollects'
  obtain ⟨parts, hparts, hresult⟩ := parts_of_foldlM hfetch
  obtain ⟨parts', hparts', hresult'⟩ := parts_of_foldlM hfetch'
  obtain ⟨rfl, rfl⟩ := Prod.mk.inj hresult
  obtain ⟨rfl, rfl⟩ := Prod.mk.inj hresult'
  have hnd : (answers.map fun a => a.1.name).Nodup := by
    rw [← hanswers, List.map_map] at hnames
    exact hnames
  have hnd' : (answers'.map fun a => a.1.name).Nodup := by
    rw [← hanswers', List.map_map] at hnames
    exact hnames
  obtain ⟨answer, hanswer, rfl⟩ : ∃ a ∈ answers, a.1 = cluster := by
    rw [← hanswers] at hcluster
    exact List.mem_map.mp hcluster
  obtain ⟨answer', hanswer', heq⟩ : ∃ a ∈ answers', a.1 = answer.1 := by
    rw [← hanswers'] at hcluster
    exact List.mem_map.mp hcluster
  -- the two listings end alike, so they add the same part
  have houtcome : answer'.2 = answer.2 := by
    have hlist' := (lists_remote_iff h hremote answer'.2).mpr (heq ▸ hlists' answer' hanswer')
    exact WhileLoop.Returns.unique hlist' (hlists answer hanswer)
  obtain ⟨part, hpart, hrows, hstats⟩ := rows_of_cluster hparts hnd hanswer
  obtain ⟨part', hpart', hrows', hstats'⟩ := rows_of_cluster hparts' hnd' hanswer'
  rw [heq, houtcome, hpart, Except.ok.injEq] at hpart'
  subst hpart'
  rw [heq] at hrows' hstats'
  rw [List.nil_append, List.nil_append, List.nil_append, List.nil_append]
  exact ⟨hrows.trans hrows'.symm, hstats.trans hstats'.symm⟩

/-! ## The credentials of a collection -/

/-- The token of the pod goes to the local API server and nowhere else, with the one cluster that has
    no base URL, read anew for every request; and what the credential files hold changes no request
    to another cluster and no row or entry of it. -/
theorem credentials_stay_local {environ : Config.Environ}
    {versionFile : String → Except Exc String} (hload : Config.load py environ versionFile = .ok cfg)
    (world world' : Surroundings Bytes) (h : SameNetwork world world') :
    (∀ cluster requests request, Sends py cfg world cluster requests request →
      cluster.baseUrl = none ∧ CarriesToken py cfg world cluster requests request ∨
        cluster.baseUrl ≠ none ∧ IsAnonymous cfg cluster request) ∧
    (∀ cluster cluster', cluster ∈ cfg.clusters → cluster' ∈ cfg.clusters →
      cluster.baseUrl = none → cluster'.baseUrl = none → cluster = cluster') ∧
    ∀ cluster ∈ cfg.clusters, cluster.baseUrl ≠ none →
      (∀ requests request, Sends py cfg world cluster requests request ↔
        Sends py cfg world' cluster requests request) ∧
      ∀ observedAt rows stats rows' stats', Collects py cfg world observedAt rows stats →
        Collects py cfg world' observedAt rows' stats' →
          Ledger.observedOf cluster.name rows = Ledger.observedOf cluster.name rows' ∧
            stats.filter (fun stat => stat.name = cluster.name) =
              stats'.filter (fun stat => stat.name = cluster.name) := by
  have hnames := (Config.load_accepted hload).clusters.names_nodup
  obtain ⟨raw, hparse⟩ := (Config.loadedFrom_of_load hload).clusters
  have hsymm : SameNetwork world' world := fun cluster requests => (h cluster requests).symm
  refine ⟨fun cluster requests request hsends => ?_, fun cluster cluster' hc hc' hl hl' =>
    Config.parseClusters_oneLocal hparse hc hc' hl hl', fun cluster hcluster hremote => ⟨?_, ?_⟩⟩
  · by_cases hlocal : cluster.baseUrl = none
    · exact Or.inl ⟨hlocal, hsends.carriesToken hlocal⟩
    · exact Or.inr ⟨hlocal, hsends.isAnonymous hlocal⟩
  · exact fun requests request => ⟨fun hsends => hsends.of_sameNetwork h hremote,
      fun hsends => hsends.of_sameNetwork hsymm hremote⟩
  · intro observedAt rows stats rows' stats' hcollects hcollects'
    exact remote_rows_eq hnames h hcollects hcollects' hcluster hremote

/-- A pod with its credential files, and one without them. -/
def projected : Surroundings Reference.TaggedBytes := fun _ _ =>
  ⟨.content (.text "token"), .content (.text "ca"), fun _ => raise .requestException "refused"⟩

def unprojected : Surroundings Reference.TaggedBytes := fun _ _ =>
  ⟨.unreadable "No such file or directory", .empty, fun _ => raise .requestException "refused"⟩

/-- The reference deployment, with the credential files mounted and without them. -/
theorem credentials_stay_local_projected :
    (∀ cluster requests request,
      Sends Reference.platform Reference.config projected cluster requests request →
        cluster.baseUrl = none ∧
            CarriesToken Reference.platform Reference.config projected cluster requests request ∨
          cluster.baseUrl ≠ none ∧ IsAnonymous Reference.config cluster request) ∧
    (∀ cluster cluster', cluster ∈ Reference.config.clusters →
      cluster' ∈ Reference.config.clusters →
        cluster.baseUrl = none → cluster'.baseUrl = none → cluster = cluster') ∧
    ∀ cluster ∈ Reference.config.clusters, cluster.baseUrl ≠ none →
      (∀ requests request,
        Sends Reference.platform Reference.config projected cluster requests request ↔
          Sends Reference.platform Reference.config unprojected cluster requests request) ∧
      ∀ observedAt rows stats rows' stats',
        Collects Reference.platform Reference.config projected observedAt rows stats →
          Collects Reference.platform Reference.config unprojected observedAt rows' stats' →
            Ledger.observedOf cluster.name rows = Ledger.observedOf cluster.name rows' ∧
              stats.filter (fun stat => stat.name = cluster.name) =
                stats'.filter (fun stat => stat.name = cluster.name) :=
  credentials_stay_local Reference.config_loaded projected unprojected fun _ _ => rfl

end ArgoExporter.Workflows
