/-
  ArgoExporter.Main.Atomicity

  What a cycle leaves in the store when a PUT that raises has no effect: all
  three objects, none of them, or a prefix of them, and the exception says
  which prefix.
-/

import ArgoExporter.Generation
import ArgoExporter.Reference

namespace ArgoExporter.Main

open ArgoExporter.Py
open ArgoExporter.ParquetIo
open ArgoExporter.S3io
open ArgoExporter.Workflows

section Publish

variable {Bytes : Type}

/-- The object an upload writes, by key. -/
def Upload.object (key : String → String) (upload : Upload Bytes) : String × Bytes :=
  (key upload.name, upload.data)

/-- A publish phase writes the objects before its first failing PUT, and reports their names. -/
theorem publish_prefix (key : String → String) {uploads : List (Upload Bytes)}
    (hclean : ∀ u ∈ uploads, u.outcome.FailsCleanly) (store : ObjectStore Bytes)
    (published : List String) :
    ∃ k ≤ uploads.length,
      (publish key store published uploads).2 =
        store.writeAll ((uploads.take k).map (Upload.object key)) ∧
      ((publish key store published uploads).1 = .ok () ∧ k = uploads.length ∨
        ∃ e, (publish key store published uploads).1 =
          .error (e, published ++ (uploads.take k).map Upload.name) ∧ k < uploads.length) := by
  induction uploads generalizing store published with
  | nil => exact ⟨0, Nat.le_refl _, rfl, Or.inl ⟨rfl, rfl⟩⟩
  | cons u uploads ih =>
      have hu := hclean u List.mem_cons_self
      cases hout : u.outcome with
      -- a served upload is one more object of the prefix
      | served =>
          obtain ⟨k, hk, hstore, hres⟩ :=
            ih (fun v hv => hclean v (List.mem_cons_of_mem _ hv))
              (store.write (key u.name) u.data) (published ++ [u.name])
          have hpub : publish key store published (u :: uploads) =
              publish key (store.write (key u.name) u.data) (published ++ [u.name])
                uploads := by
            rw [publish, hout, uploadBytes]
          refine ⟨k + 1, Nat.succ_le_succ hk, ?_, ?_⟩
          · rw [hpub, hstore]
            rfl
          · rw [hpub]
            rcases hres with ⟨hok, hlen⟩ | ⟨e, herr, hlt⟩
            · exact Or.inl ⟨hok, by rw [hlen, List.length_cons]⟩
            · refine Or.inr ⟨e, ?_, Nat.succ_lt_succ hlt⟩
              rw [herr, List.take_succ_cons, List.map_cons, List.append_assoc]
              rfl
      -- a clean failure stops the publication with nothing written
      | failed e landed =>
          rw [hout] at hu
          have hlanded : landed = false := hu
          refine ⟨0, Nat.zero_le _, ?_, Or.inr ⟨e, ?_, Nat.succ_pos _⟩⟩
          · rw [publish, hout, uploadBytes, hlanded]
            rfl
          · rw [publish, hout, uploadBytes, List.take_zero, List.map_nil, List.append_nil]

end Publish

/-! ## Whole cycles -/

/-- Every PUT of the cycle that fails has no effect. -/
def CycleInputs.PutsFailCleanly {cfg : Config} (inputs : CycleInputs cfg) : Prop :=
  inputs.putWorkflows.FailsCleanly ∧ inputs.putRuns.FailsCleanly ∧ inputs.putMeta.FailsCleanly

theorem CycleInputs.PutsFailCleanly.uploads {cfg : Config} {inputs : CycleInputs cfg}
    (hclean : inputs.PutsFailCleanly) {Bytes : Type} (payloads : Payloads Bytes) :
    ∀ u ∈ uploads inputs payloads, u.outcome.FailsCleanly := by
  intro u hu
  simp only [Main.uploads, List.mem_cons, List.not_mem_nil, or_false] at hu
  rcases hu with rfl | rfl | rfl
  · exact hclean.1
  · exact hclean.2.1
  · exact hclean.2.2

/-- `store'` is `store` with exactly the first `k` objects of generation `id` replaced. -/
def ReplacesFirst {Bytes : Type} (py : Platform Bytes) (key : String → String) (id : String)
    (k : Nat) (store store' : ObjectStore Bytes) : Prop :=
  ∃ objects : List (String × Bytes), objects.map Prod.fst = publicationObjects.take k ∧
    (∀ o ∈ objects, CarriesId py o.1 o.2 id) ∧
    ∀ k, store' k = ((objects.find? fun o => key o.1 = k).map Prod.snd).or (store k)

section Cycle

variable {Bytes : Type} {py : Platform Bytes}

theorem replacesFirst_zero (key : String → String) (id : String) (store : ObjectStore Bytes) :
    ReplacesFirst py key id 0 store store :=
  ⟨[], rfl, by simp, fun _ => rfl⟩

theorem publicationObjects_nodup : publicationObjects.Nodup := by decide

/-- Writing the first objects of a cycle in order replaces exactly these. -/
theorem replacesFirst_writeAll {key : String → String} (hkey : Function.Injective key) {id : String}
    {payloads : Payloads Bytes} (hid : ∀ o ∈ payloads.objects, CarriesId py o.1 o.2 id)
    (store : ObjectStore Bytes) (k : Nat) :
    ReplacesFirst py key id k store
      (store.writeAll ((payloads.objects.take k).map fun o => (key o.1, o.2))) := by
  refine ⟨payloads.objects.take k, ?_, fun o ho => hid o (List.mem_of_mem_take ho), fun k' => ?_⟩
  · rw [List.map_take, Payloads.objects_names]
  · have hnd : (((payloads.objects.take k).map fun o => (key o.1, o.2)).map Prod.fst).Nodup := by
      have hnames : ((payloads.objects.take k).map Prod.fst).Nodup := by
        rw [List.map_take, Payloads.objects_names]
        exact publicationObjects_nodup.sublist (List.take_sublist _ _)
      have hkeys := hnames.map hkey
      rw [List.map_map] at hkeys ⊢
      exact hkeys
    rw [ObjectStore.writeAll_apply _ hnd, List.find?_map, Option.map_map]
    rfl

/-- Fewer than three replaced objects leave the marker as it was. -/
theorem ReplacesFirst.meta_unchanged {key : String → String} (hkey : Function.Injective key)
    {id : String} {k : Nat} {store store' : ObjectStore Bytes}
    (h : ReplacesFirst py key id k store store') (hk : k ≤ 2) :
    store' (key "meta.json") = store (key "meta.json") := by
  obtain ⟨objects, hnames, _, hstore⟩ := h
  rw [hstore, List.find?_eq_none.mpr ?_]
  · rfl
  intro o ho heq
  have hname : o.1 = "meta.json" := hkey (by simpa using heq)
  have hmem : o.1 ∈ publicationObjects.take 2 :=
    (List.take_sublist_take_left hk).subset (hnames ▸ List.mem_map_of_mem (f := Prod.fst) ho)
  rw [hname] at hmem
  exact absurd hmem (by decide)

theorem skipped_of_published (k : Nat) :
    (publicationObjects.filter fun name => ¬ (publicationObjects.take k).contains name) =
      publicationObjects.drop k := by
  match k with
  | 0 | 1 | 2 => decide
  | k + 3 =>
      have htake : publicationObjects.take (k + 3) = publicationObjects :=
        List.take_of_length_le (by simp [publicationObjects])
      have hdrop : publicationObjects.drop (k + 3) = [] :=
        List.drop_of_length_le (by simp [publicationObjects])
      rw [htake, hdrop]
      decide

theorem uploads_object {cfg : Config} (inputs : CycleInputs cfg) (payloads : Payloads Bytes)
    (k : Nat) (key : String → String) :
    ((uploads inputs payloads).take k).map (Upload.object key) =
      (payloads.objects.take k).map fun o => (key o.1, o.2) := by
  rw [List.map_take, List.map_take]
  rfl

theorem uploads_name {cfg : Config} (inputs : CycleInputs cfg) (payloads : Payloads Bytes)
    (k : Nat) : ((uploads inputs payloads).take k).map Upload.name = publicationObjects.take k := by
  rw [List.map_take]
  rfl

theorem cycleFailure_published (cfg : Config) (phase : Phase) (stats : List ClusterStat) (k : Nat) :
    (cycleFailure cfg phase stats (publicationObjects.take k)).publishedObjects =
      publicationObjects.take k := rfl

theorem cycleFailure_skipped (cfg : Config) (phase : Phase) (stats : List ClusterStat) (k : Nat) :
    (cycleFailure cfg phase stats (publicationObjects.take k)).skippedObjects =
      publicationObjects.drop k :=
  skipped_of_published k

/-- What a cycle that ends so leaves behind. -/
def LeavesBehind {Bytes : Type} (py : Platform Bytes) (key : String → String) (id : String)
    (store store' : ObjectStore Bytes) : CycleOutcome → Prop
  | .published => ReplacesFirst py key id 3 store store'
  | .skipped _ => store' = store
  | .raised _ context =>
      ∃ k ≤ 2, ReplacesFirst py key id k store store' ∧
        store' (key "meta.json") = store (key "meta.json") ∧
        context.publishedObjects = publicationObjects.take k ∧
        context.skippedObjects = publicationObjects.drop k ∧
        (context.phase = .read ∨ context.phase = .compute → k = 0)

theorem afterPublish_leavesBehind {key : String → String} (hkey : Function.Injective key)
    {cfg : Config} {inputs : CycleInputs cfg} {payloads : Payloads Bytes} {id : String}
    (hid : ∀ o ∈ payloads.objects, CarriesId py o.1 o.2 id) (hclean : inputs.PutsFailCleanly)
    (stats : List ClusterStat) (store : ObjectStore Bytes) :
    LeavesBehind py key id store
      (afterPublish cfg stats (publish key store [] (uploads inputs payloads))).2
      (afterPublish cfg stats (publish key store [] (uploads inputs payloads))).1 := by
  obtain ⟨k, _, hstore, hres⟩ := publish_prefix key (hclean.uploads payloads) store []
  rw [uploads_object] at hstore
  have hreplaced := replacesFirst_writeAll hkey hid store k
  rw [← hstore] at hreplaced
  generalize publish key store [] (uploads inputs payloads) = result at *
  obtain ⟨outcome, store'⟩ := result
  rcases hres with ⟨hok, hk⟩ | ⟨e, herr, hk⟩
  -- every upload was served
  · have hk3 : k = 3 := hk
    have hok' : outcome = .ok () := hok
    rw [hk3] at hreplaced
    rw [hok']
    exact hreplaced
  -- the marker is the last of the three, so it was not reached
  · have hk2 : k ≤ 2 := Nat.le_of_lt_succ hk
    have herr' : outcome = .error (e, publicationObjects.take k) := by
      rw [List.nil_append, uploads_name] at herr
      exact herr
    rw [herr']
    exact ⟨k, hk2, hreplaced, hreplaced.meta_unchanged hkey hk2,
      cycleFailure_published cfg .publish stats k, cycleFailure_skipped cfg .publish stats k,
      fun h => absurd h (by simp [cycleFailure, annotateCycleFailure])⟩

/-- Cycle atomicity: all three objects of the cycle's generation, none, or the prefix that the
    exception names, the marker always last. -/
theorem runCycle_atomic (hpq : ParquetFaithful py) (hjson : JsonFaithful py) (cfg : Config)
    (inputs : CycleInputs cfg) (store : ObjectStore Bytes) (hclean : inputs.PutsFailCleanly) :
    LeavesBehind py (objectKey cfg.destPrefix) (generationId inputs.now inputs.uuid) store
      (runCycle py cfg inputs store).2 (runCycle py cfg inputs store).1 := by
  have hkey := objectKey_injective cfg.destPrefix
  unfold runCycle
  dsimp only
  generalize hprep : prepare py cfg inputs.now inputs.uuid inputs.answers
    (getObject store inputs.getRuns (objectKey cfg.destPrefix "runs.parquet")) = prepared
  generalize objectKey cfg.destPrefix = key at *
  -- only a prepared cycle writes to the store
  cases prepared with
  | skip stats => exact rfl
  | fail e phase stats =>
      exact ⟨0, Nat.zero_le _, replacesFirst_zero key _ store, rfl, rfl,
        cycleFailure_skipped cfg phase stats 0, fun _ => rfl⟩
  | ready payloads stats =>
      have hid := carriesId_of_prepare hpq hjson hprep
      exact afterPublish_leavesBehind hkey hid hclean stats store

end Cycle

end ArgoExporter.Main

/-! ## Cycles of the reference deployment -/

namespace ArgoExporter.Reference

open ArgoExporter.Py
open ArgoExporter.S3io
open ArgoExporter.Main

/-- A suffix of one repeated hexadecimal digit. -/
def uuid (c : Char) (h : MetaSchema.hexClass c = true := by decide) : UuidHex where
  digits := List.replicate 32 c
  length_eq := List.length_replicate
  hex := fun x hx => by rw [(List.mem_replicate.mp hx).2]; exact h

/-- The first cluster lists these items, the second one does not answer. -/
def answers (items : List Json) : Answers config.clusters :=
  ⟨[(alpha, .ok (items, true)), (beta, .ok ([], false))], rfl⟩

/-- A cycle that lists one run, with this end of its last PUT. -/
def cycle (n : Nat) (c : Char) (putMeta : PutOutcome) (h : n < 1000000 := by decide)
    (hc : MetaSchema.hexClass c = true := by decide) : CycleInputs config where
  now := instant n h
  uuid := uuid c hc
  answers := answers [workflow "u-1" succeeded]
  getRuns := .served
  putWorkflows := .served
  putRuns := .served
  putMeta := putMeta

def stats : List Workflows.ClusterStat := [⟨"alpha", true, 1⟩, ⟨"beta", false, 0⟩]

theorem fetch_answers (t : String) :
    Workflows.fetchWorkflows platform t (answers [workflow "u-1" succeeded]).entries =
      .ok ([row t], stats) := rfl

/-- A store without objects. -/
def emptyStore : ObjectStore TaggedBytes := fun _ => none

end ArgoExporter.Reference

namespace ArgoExporter.Main

open ArgoExporter.Py
open ArgoExporter.S3io

/-- A cycle whose last PUT fails, on an empty store. -/
theorem runCycle_atomic_torn :
    LeavesBehind Reference.platform (objectKey Reference.config.destPrefix)
      (generationId (Reference.instant 0) (Reference.uuid 'a')) Reference.emptyStore
      (runCycle Reference.platform Reference.config
        (Reference.cycle 0 'a' (.failed ⟨.clientError "InternalError", "put"⟩ false))
        Reference.emptyStore).2
      (runCycle Reference.platform Reference.config
        (Reference.cycle 0 'a' (.failed ⟨.clientError "InternalError", "put"⟩ false))
        Reference.emptyStore).1 :=
  runCycle_atomic Reference.parquetFaithful Reference.jsonFaithful Reference.config
    (Reference.cycle 0 'a' (.failed ⟨.clientError "InternalError", "put"⟩ false))
    Reference.emptyStore ⟨trivial, trivial, rfl⟩

end ArgoExporter.Main
