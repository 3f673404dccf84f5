/-
  ArgoExporter.SharedPrefix.TornReads

  Exactly which reads are torn.  The PUTs of one exporter are logged cycle by
  cycle, the marker last, so a file that a read finds is the one of the commit
  whose marker it got, or was put by a later cycle and names another generation.
-/

import ArgoExporter.Consumer.StoredReads
import ArgoExporter.SharedPrefix.SingleExporter

namespace ArgoExporter.SharedPrefix

open ArgoExporter.Lib.Provenance
open ArgoExporter.Py
open ArgoExporter.ParquetIo
open ArgoExporter.S3io
open ArgoExporter.Main
open ArgoExporter.Consumer

variable {Bytes : Type} (py : Platform Bytes) (pfx : String) (initial : ObjectStore Bytes)

/-! ## The log of one exporter -/

/-- The logged PUT of one object of a cycle. -/
def logged (id : String) (o : String × Bytes) : Write String String Bytes :=
  ⟨id, objectKey pfx o.1, o.2⟩

/-- The sidecar and the files of a cycle are one generation. -/
def WholeCycle (c : Cycle Bytes) : Prop :=
  ∃ metaJson, py.jsonLoads c.payloads.meta = .ok metaJson ∧
    OneGeneration py ⟨metaJson, some c.payloads.workflows, some c.payloads.runs⟩ c.id

/-- A log that is a cycle's three PUTs, the marker last, before the later PUTs of other cycles. -/
structure Committed (c : Cycle Bytes) (log later : List (Write String String Bytes)) : Prop where
  split : ∃ earlier, log = later ++ (c.payloads.objects.map (logged pfx c.id)).reverse ++ earlier
  others : ∀ w ∈ later, w.tag ≠ c.id

/-- The invariant of the log: what was put is stored, the PUTs of the cycle under way are the newest
    ones, and each PUT of a marker ends the three PUTs of its cycle. -/
structure LogInv (e : Exporter Bytes) : Prop where
  whole : ∀ c ∈ e.writers.cycles, WholeCycle py c
  replays : Replays initial e.writers.log e.writers.store
  underWay : ∀ p, e.writers.publishing 0 = some p → ∃ c ∈ e.writers.cycles, c.id = p.id ∧
    ∃ done earlier, done ++ p.todo = c.payloads.objects ∧
      e.writers.log = (done.map (logged pfx c.id)).reverse ++ earlier ∧
      ∀ w ∈ earlier, w.tag ≠ c.id
  markers : ∀ later w earlier, e.writers.log = later ++ w :: earlier →
    w.slot = objectKey pfx "meta.json" →
      ∃ c ∈ e.writers.cycles, Committed pfx c e.writers.log later

variable {py pfx initial}

theorem logInv_start : LogInv py pfx initial (Exporter.start pfx initial) where
  whole c hc := absurd hc (by simp [Exporter.start, Writers.start])
  replays := replays_initial
  underWay p hp := absurd hp (by simp [Exporter.start, Writers.start])
  markers later w earlier hlog := absurd hlog (by simp [Exporter.start, Writers.start])

theorem wholeCycle_of_prepare (hpq : ParquetFaithful py) (hjson : JsonFaithful py) {cfg : Config}
    {now : Stamp} {uuid : UuidHex} {answers : Answers cfg.clusters} {getRuns : Except Exc Bytes}
    {payloads : Payloads Bytes} {stats : List Workflows.ClusterStat}
    (h : prepare py cfg now uuid answers getRuns = .ready payloads stats) :
    WholeCycle py ⟨generationId now uuid, payloads⟩ := by
  obtain ⟨rows, stored, _, _, _, hcompute⟩ := (prepare_eq_ready_iff py).mp h
  obtain ⟨merged, _, _, _, hmeta, hone⟩ := decode_of_compute hpq hjson hcompute
  exact ⟨_, hmeta, hone⟩

/-- With an object still to put, the cycle is at one of its three PUTs. -/
theorem objects_cases {payloads : Payloads Bytes} {done todo : List (String × Bytes)}
    {o : String × Bytes} (h : done ++ o :: todo = payloads.objects) :
    (o.1 ≠ "meta.json" ∧ ∀ o' ∈ done, o'.1 ≠ "meta.json") ∨
      (o.1 = "meta.json" ∧ done ++ [o] = payloads.objects ∧ todo = []) := by
  obtain ⟨hfresh, hlast⟩ := objects_split h
  by_cases hname : o.1 = "meta.json"
  · have htodo := hlast.mp hname
    rw [htodo] at h
    exact Or.inr ⟨hname, h, htodo⟩
  · refine Or.inl ⟨hname, fun o' ho' hmeta => ?_⟩
    -- the marker is the last object, so it is not among those put before another one
    obtain ⟨before, after, hdone⟩ := List.append_of_mem ho'
    have hsplit : before ++ o' :: (after ++ o :: todo) = payloads.objects := by
      rw [← h, hdone, List.append_assoc, List.cons_append]
    exact absurd ((objects_split hsplit).2.mp hmeta) (by simp)

theorem Committed.mem {c : Cycle Bytes} {log later : List (Write String String Bytes)}
    (h : Committed pfx c log later) {o : String × Bytes} (ho : o ∈ c.payloads.objects) :
    logged pfx c.id o ∈ log := by
  obtain ⟨earlier, hlog⟩ := h.split
  rw [hlog, List.mem_append, List.mem_append, List.mem_reverse]
  exact Or.inl (Or.inr (List.mem_map_of_mem ho))

/-- The next PUT of the cycle under way. -/
theorem LogInv.put {e : Exporter Bytes} (h : LogInv py pfx initial e)
    {destPrefix id name : String} {data : Bytes} {todo : List (String × Bytes)}
    (hnext : e.writers.publishing 0 = some ⟨destPrefix, id, (name, data) :: todo⟩)
    (hpfx : Config.normalizeS3Prefix destPrefix = Config.normalizeS3Prefix pfx) :
    LogInv py pfx initial
      ((e.land destPrefix id name data).assign (some ⟨destPrefix, id, todo⟩)) := by
  obtain ⟨c, hc, hid, done, earlier, hsplit, hlog, hothers⟩ := h.underWay _ hnext
  have hid : c.id = id := hid
  subst hid
  have hkey : objectKey destPrefix name = objectKey pfx name := (objectKey_eq_iff _ _ _).mpr hpfx
  have hlog' : ((e.land destPrefix c.id name data).assign
      (some ⟨destPrefix, c.id, todo⟩)).writers.log =
        logged pfx c.id (name, data) :: e.writers.log := by
    show (⟨c.id, objectKey destPrefix name, data⟩ : Write String String Bytes) :: _ = _
    rw [hkey]
    rfl
  refine ⟨h.whole, ?_, fun p hp => ?_, fun later w before hw hslot => ?_⟩
  · have hstore : (e.land destPrefix c.id name data).writers.store =
        e.writers.store.write (objectKey pfx name) data := by
      show e.writers.store.write (objectKey destPrefix name) data = _
      rw [hkey]
    show Replays initial _ (e.land destPrefix c.id name data).writers.store
    rw [hlog', hstore, ObjectStore.write_eq]
    exact h.replays.write c.id _ data
  · rw [Exporter.assign_publishing, Option.some.injEq] at hp
    subst hp
    refine ⟨c, hc, rfl, done ++ [(name, data)], earlier, ?_, ?_, hothers⟩
    · rw [List.append_assoc]
      exact hsplit
    · rw [hlog', hlog, List.map_append, List.reverse_append]
      rfl
  · rw [hlog'] at hw ⊢
    cases later with
    | nil =>
        -- this PUT is the one of the marker, the third of its cycle
        have hentry : logged pfx c.id (name, data) = w := (List.cons.inj hw).1
        have hname : name = "meta.json" := by
          rw [← hentry] at hslot
          exact objectKey_injective pfx hslot
        rcases objects_cases hsplit with ⟨hne, _⟩ | ⟨_, hobjects, _⟩
        · exact absurd hname hne
        · refine ⟨c, hc, ⟨earlier, ?_⟩, by simp⟩
          rw [← hobjects, hlog, List.map_append, List.reverse_append]
          rfl
    | cons entry later =>
        obtain ⟨hentry, hw⟩ := List.cons.inj hw
        obtain ⟨d, hd, hcommitted⟩ := h.markers later w before hw hslot
        refine ⟨d, hd, ?_, List.forall_mem_cons.mpr ⟨?_, hcommitted.others⟩⟩
        · obtain ⟨first, hfirst⟩ := hcommitted.split
          refine ⟨first, ?_⟩
          rw [hfirst, ← hentry]
          rfl
        -- the cycle under way has not put its marker yet
        · rw [← hentry]
          intro hsame
          have hsame : c.id = d.id := hsame
          have hmarker := hcommitted.mem (o := ("meta.json", d.payloads.meta))
            (by simp [Payloads.objects])
          rw [hlog, List.mem_append, List.mem_reverse] at hmarker
          rcases hmarker with hmarker | hmarker
          · obtain ⟨o', ho', heq⟩ := List.mem_map.mp hmarker
            have hname : o'.1 = "meta.json" := objectKey_injective pfx (congrArg Write.slot heq)
            rcases objects_cases hsplit with ⟨_, hne⟩ | ⟨hmeta, _, _⟩
            · exact hne o' ho' hname
            · exact (objects_split hsplit).1 o' ho' (hname.trans hmeta.symm)
          · exact hothers _ hmarker hsame.symm

theorem exporterStep_log (hpq : ParquetFaithful py) (hjson : JsonFaithful py)
    {e e' : Exporter Bytes} (he : ExporterInv pfx initial e) (hcommits : CommitsInv py pfx initial e)
    (h : LogInv py pfx initial e) (hnew : NewIds py pfx initial e'.writers)
    (hstep : ExporterStep py pfx e e') : LogInv py pfx initial e' := by
  cases hstep with
  | @begin cfg now uuid answers getRuns payloads stats hidle hpfx hprepare =>
      have hdistinct := (List.nodup_cons.mp hnew.distinct).1
      refine ⟨?_, h.replays, fun p hp => ?_, fun later w before hw hslot => ?_⟩
      · exact List.forall_mem_cons.mpr ⟨wholeCycle_of_prepare hpq hjson hprepare, h.whole⟩
      · rw [Exporter.assign_publishing, Option.some.injEq] at hp
        subst hp
        refine ⟨_, List.mem_cons_self, rfl, [], e.writers.log, rfl, rfl, fun w hw htag => ?_⟩
        obtain ⟨o, ⟨d, hd, hid, _⟩, _⟩ := hcommits.writers.logged w hw
        exact hdistinct (List.mem_map.mpr ⟨d, hd, hid.trans htag⟩)
      · obtain ⟨c, hc, hcommitted⟩ := h.markers later w before hw hslot
        exact ⟨c, List.mem_cons_of_mem _ hc, hcommitted⟩
  | putServed hnext =>
      have hpfx := he.destPrefix _ hnext
      exact h.put hnext hpfx
  | stop =>
      refine ⟨h.whole, h.replays, fun p hp => ?_, h.markers⟩
      rw [Exporter.assign_publishing] at hp
      exact absurd hp (by simp)

/-! ## Runs of the exporter -/

variable (py pfx initial)

/-- The states of any run of the exporter from these objects. -/
def ExporterReachable (e : Exporter Bytes) : Prop :=
  Relation.ReflTransGen (ExporterStep py pfx) (Exporter.start pfx initial) e

variable {py pfx initial}

theorem exporterRun_grows {e e' : Exporter Bytes}
    (h : Relation.ReflTransGen (ExporterStep py pfx) e e') :
    Grows e e' ∧ e.writers.log <:+ e'.writers.log := by
  induction h with
  | refl =>
      exact ⟨⟨List.prefix_refl _, List.suffix_refl _, List.Subset.refl _⟩, List.suffix_refl _⟩
  | tail _ hstep ih =>
      obtain ⟨hgrows, hlog⟩ := ih
      have hgrows' := exporterStep_grows hstep
      refine ⟨⟨hgrows.commits.trans hgrows'.commits, hgrows.cycles.trans hgrows'.cycles,
        List.Subset.trans hgrows.log hgrows'.log⟩, hlog.trans ?_⟩
      cases hstep with
      | begin => exact List.suffix_refl _
      | putServed => exact List.suffix_cons _ _
      | stop => exact List.suffix_refl _

theorem exporterReachable_inv (hpq : ParquetFaithful py) (hjson : JsonFaithful py)
    {e : Exporter Bytes} (h : ExporterReachable py pfx initial e)
    (hnew : NewIds py pfx initial e.writers) :
    ExporterInv pfx initial e ∧ CommitsInv py pfx initial e ∧ LogInv py pfx initial e := by
  induction h with
  | refl => exact ⟨exporterInv_start, commitsInv_start, logInv_start⟩
  | tail _ hstep ih =>
      obtain ⟨he, hcommits, hlog⟩ := ih (hnew.of_grows (exporterStep_grows hstep))
      exact ⟨exporterStep_inv he hstep, exporterStep_commits hpq hjson he hcommits hnew hstep,
        exporterStep_log hpq hjson he hcommits hlog hnew hstep⟩

/-! ## PUTs since a commit -/

variable (pfx)

/-- The PUTs that took effect between that of the marker stored in `e` and the state `e'`. -/
def sinceMarker (e e' : Exporter Bytes) : List (Write String String Bytes) :=
  e'.writers.log.take (e'.writers.log.length - e.writers.log.length) ++
    e.writers.log.takeWhile fun w => w.slot ≠ objectKey pfx "meta.json"

/-- None of them is of the object `name`. -/
def Untouched (e e' : Exporter Bytes) (name : String) : Prop :=
  ∀ w ∈ sinceMarker pfx e e', w.slot ≠ objectKey pfx name

instance (e e' : Exporter Bytes) (name : String) : Decidable (Untouched pfx e e' name) :=
  inferInstanceAs (Decidable (∀ w ∈ sinceMarker pfx e e', w.slot ≠ objectKey pfx name))

/-- Some cycle of the run has put its marker. -/
def HasCommitted (e : Exporter Bytes) : Prop :=
  ∃ w ∈ e.writers.log, w.slot = objectKey pfx "meta.json"

variable {pfx}

/-- The log of a later state is the PUTs since the marker, the PUT of the marker and what was
    before it. -/
theorem sinceMarker_split {e e' : Exporter Bytes} (hlog : e.writers.log <:+ e'.writers.log)
    (h : HasCommitted pfx e) : ∃ w earlier, w.slot = objectKey pfx "meta.json" ∧
      e.writers.log = sinceMarker pfx e e ++ w :: earlier ∧
      e'.writers.log = sinceMarker pfx e e' ++ w :: earlier := by
  have hsplit := List.takeWhile_append_dropWhile
    (p := fun w : Write String String Bytes => decide (w.slot ≠ objectKey pfx "meta.json"))
    (l := e.writers.log)
  cases hdrop : e.writers.log.dropWhile
      (fun w => decide (w.slot ≠ objectKey pfx "meta.json")) with
  | nil =>
      obtain ⟨w, hw, hslot⟩ := h
      have hne := List.dropWhile_eq_nil_iff.mp hdrop w hw
      exact absurd hslot (by simpa using hne)
  | cons w earlier =>
      have hslot := List.head?_dropWhile_not
        (fun w : Write String String Bytes => decide (w.slot ≠ objectKey pfx "meta.json"))
        e.writers.log
      rw [hdrop] at hslot hsplit
      obtain ⟨later, hlater⟩ := hlog
      refine ⟨w, earlier, by simpa using hslot, ?_, ?_⟩
      · rw [sinceMarker, Nat.sub_self, List.take_zero, List.nil_append]
        exact hsplit.symm
      · rw [sinceMarker, ← hlater, List.length_append, Nat.add_sub_cancel, List.take_left,
          List.append_assoc, hsplit]

theorem mem_sinceMarker {e e' : Exporter Bytes} {w : Write String String Bytes}
    (h : e'.writers.log = w :: e.writers.log) : w ∈ sinceMarker pfx e e' := by
  rw [sinceMarker, h, List.length_cons, Nat.add_sub_cancel_left]
  exact List.mem_append_left _ (by simp)

/-- The write behind the later ones is that of the cycle's marker. -/
theorem Committed.marker {c : Cycle Bytes} {later earlier : List (Write String String Bytes)}
    {w : Write String String Bytes} (h : Committed pfx c (later ++ w :: earlier) later) :
    w = logged pfx c.id ("meta.json", c.payloads.meta) := by
  obtain ⟨first, hfirst⟩ := h.split
  rw [List.append_assoc, List.append_cancel_left_eq] at hfirst
  exact (List.cons.inj hfirst).1

/-- The cycle whose marker is stored has its PUTs below all later ones. -/
theorem LogInv.committed {e : Exporter Bytes} (h : LogInv py pfx initial e)
    (hcommitted : HasCommitted pfx e) :
    ∃ c ∈ e.writers.cycles, Committed pfx c e.writers.log (sinceMarker pfx e e) := by
  obtain ⟨w, earlier, hslot, hsplit, _⟩ := sinceMarker_split (List.suffix_refl _) hcommitted
  exact h.markers _ w earlier hsplit hslot

/-- It has them there at any later moment. -/
theorem Committed.later {e e' : Exporter Bytes} {c : Cycle Bytes}
    (h : Committed pfx c e.writers.log (sinceMarker pfx e e)) (hc : c ∈ e'.writers.cycles)
    (hinv : LogInv py pfx initial e') (hwriters : WritersInv py pfx initial e'.writers)
    (hlog : e.writers.log <:+ e'.writers.log) (hcommitted : HasCommitted pfx e) :
    Committed pfx c e'.writers.log (sinceMarker pfx e e') := by
  obtain ⟨w, earlier, hslot, hsplit, hsplit'⟩ := sinceMarker_split hlog hcommitted
  obtain ⟨d, hd, hlater⟩ := hinv.markers _ w earlier hsplit' hslot
  rw [hsplit] at h
  have hmarker := hlater
  rw [hsplit'] at hmarker
  -- the marker is the same write, so it is the same cycle
  have hid : c.id = d.id := congrArg Write.tag (h.marker.symm.trans hmarker.marker)
  obtain rfl := hwriters.cycle_unique hc hd hid
  exact hlater

/-- The stored marker is the newest one. -/
theorem untouched_marker (e : Exporter Bytes) : Untouched pfx e e "meta.json" := by
  intro w hw
  rw [sinceMarker, Nat.sub_self, List.take_zero, List.nil_append] at hw
  simpa using List.mem_takeWhile_imp hw

/-! ## Files behind a marker -/

section Files

variable {e e' : Exporter Bytes} {c : Cycle Bytes}

/-- The marker and the files that nobody put again are those of the cycle. -/
theorem LogInv.stored_of_untouched (h : LogInv py pfx initial e')
    (hcommitted : Committed pfx c e'.writers.log (sinceMarker pfx e e')) {o : String × Bytes}
    (ho : o ∈ c.payloads.objects) (huntouched : Untouched pfx e e' o.1) :
    e'.writers.store (objectKey pfx o.1) = some o.2 := by
  obtain ⟨earlier, hlog⟩ := hcommitted.split
  obtain ⟨before, after, hobjects⟩ := List.append_of_mem ho
  -- the objects of the cycle that were put after this one have other names
  have hnames : ∀ o' ∈ after, o'.1 ≠ o.1 := by
    intro o' ho' hname
    obtain ⟨between, rest, hafter⟩ := List.append_of_mem ho'
    have hsplit : (before ++ o :: between) ++ o' :: rest = c.payloads.objects := by
      rw [hobjects, hafter, List.append_assoc, List.cons_append]
    exact (objects_split hsplit).1 o (by simp) hname.symm
  have hreplays := h.replays
  rw [hlog, hobjects, List.map_append, List.map_cons, List.reverse_append, List.reverse_cons,
    List.append_assoc, List.append_assoc, List.append_assoc, List.singleton_append,
    ← List.append_assoc] at hreplays
  refine hreplays.untouched fun w hw => ?_
  rcases List.mem_append.mp hw with hw | hw
  · exact huntouched w hw
  · rw [List.mem_reverse] at hw
    obtain ⟨o', ho', rfl⟩ := List.mem_map.mp hw
    exact fun hslot => hnames o' ho' (objectKey_injective pfx hslot)

/-- A file that was put again names another generation. -/
theorem LogInv.stored_of_touched (h : LogInv py pfx initial e')
    (hwriters : WritersInv py pfx initial e'.writers)
    (hcommitted : Committed pfx c e'.writers.log (sinceMarker pfx e e')) {name : String}
    (hname : name ≠ "meta.json") (htouched : ¬ Untouched pfx e e' name) :
    ∃ data id, e'.writers.store (objectKey pfx name) = some data ∧
      footerGenerationId py (some data) = some id ∧ id ≠ c.id := by
  obtain ⟨earlier, hlog⟩ := hcommitted.split
  have hlater : ∃ w ∈ sinceMarker pfx e e', w.slot = objectKey pfx name := by
    by_contra hnone
    exact htouched fun w hw hslot => hnone ⟨w, hw, hslot⟩
  have hreplays := h.replays
  rw [hlog, List.append_assoc] at hreplays
  obtain ⟨w, hw, hslot, hstored⟩ := hreplays.touched hlater
  have hmem : w ∈ e'.writers.log := by
    rw [hlog, List.append_assoc]
    exact List.mem_append_left _ hw
  refine ⟨w.value, w.tag, hstored, ?_, hcommitted.others w hw⟩
  have hnamed := hwriters.stamped_log w hmem
  rwa [hslot, idOf_file hname] at hnamed

end Files

/-- Two files that name generations, not both that of the sidecar, are torn. -/
theorem rejectionReason_of_torn {metaJson : Json} {workflows runs : Bytes} {id w r : String}
    (hvalid : MetaSchema.validate py metaJson = .ok ()) (hmeta : metaGenerationId metaJson = some id)
    (hw : footerGenerationId py (some workflows) = some w)
    (hr : footerGenerationId py (some runs) = some r) (htorn : ¬ (id = w ∧ w = r)) :
    generationRejectionReason py (some ⟨metaJson, some workflows, some runs⟩) =
      .ok (some .torn) := by
  have hids : generationIds py ⟨metaJson, some workflows, some runs⟩ = (some id, some w, some r) := by
    rw [generationIds, hmeta, hw, hr]
  unfold generationRejectionReason
  dsimp only
  rw [validMeta_eq_true_iff.mpr hvalid, ok_bind, if_neg (by simp), if_neg (by simp), hids]
  dsimp only
  rw [if_pos htorn]
  rfl

/-- A read that finds a valid marker and both files decides about these three. -/
theorem read_of_found {s₁ s₂ s₃ : ObjectStore Bytes} {marker workflows runs : Bytes}
    {metaJson : Json} (hmarker : s₁ (objectKey pfx "meta.json") = some marker)
    (hdecode : py.jsonLoads marker = .ok metaJson)
    (hvalid : MetaSchema.validate py metaJson = .ok ())
    (hw : s₂ (objectKey pfx "workflows.parquet") = some workflows)
    (hr : s₃ (objectKey pfx "runs.parquet") = some runs) (last : Option (Publication Bytes)) :
    readGenerationResult py (getObject s₁ .served (key pfx "meta.json"))
        (getObject s₂ .served (key pfx "workflows.parquet"))
        (getObject s₃ .served (key pfx "runs.parquet")) last none =
      selectGenerationResult py (some ⟨metaJson, some workflows, some runs⟩) last none := by
  unfold readGenerationResult key
  simp only [downloadBytes_getObject, hmarker, hw, hr, ok_bind, checkMarker,
    parseMarker_of_valid hdecode hvalid]

/-- The last commit is the three objects of the cycle whose marker is stored. -/
theorem CommitsInv.last_commit {e : Exporter Bytes} (h : CommitsInv py pfx initial e)
    (he : ExporterInv pfx initial e) (hnew : NewIds py pfx initial e.writers) {c : Cycle Bytes}
    (hc : c ∈ e.writers.cycles)
    (hstored : e.writers.store (objectKey pfx "meta.json") = some c.payloads.meta) :
    ∃ store, e.commits.getLast? = some store ∧ HasObjects pfx store c.payloads.objects := by
  obtain ⟨store, hlast, hmarker⟩ := he.marker _ hstored
  have hid : markerId py pfx store = some c.id := by
    rw [markerId, hmarker, Option.bind_some]
    exact h.writers.stamped c hc ("meta.json", _) (by simp [Payloads.objects])
  refine ⟨store, hlast, ?_⟩
  rcases h.commits store (List.mem_of_getLast? hlast) with rfl | ⟨d, hd, hobjects⟩
  · rw [markerId, hmarker, Option.bind_some] at hid
    exact absurd hid (hnew.new c hc "meta.json" _ hmarker)
  · rw [h.writers.markerId_of_objects hd hobjects, Option.some.injEq] at hid
    obtain rfl := h.writers.cycle_unique hd hc hid
    exact hobjects

/-! ## Exactly the torn reads -/

/-- Once a cycle has committed, a read whose three GETs are served while the exporter goes on gives
    the newest commit of the moment of the first GET, if neither file was put again before its GET,
    and is torn otherwise. -/
theorem read_exactly_torn (hpq : ParquetFaithful py) (hjson : JsonFaithful py)
    {e₁ e₂ e₃ : Exporter Bytes} (h₁ : ExporterReachable py pfx initial e₁)
    (h₂ : Relation.ReflTransGen (ExporterStep py pfx) e₁ e₂)
    (h₃ : Relation.ReflTransGen (ExporterStep py pfx) e₂ e₃)
    (hnew : NewIds py pfx initial e₃.writers) (hcommitted : HasCommitted pfx e₁) :
    ∃ store publication, e₁.commits.getLast? = some store ∧ Holds py pfx store publication ∧
      ∀ last, readGenerationResult py
          (getObject e₁.writers.store .served (key pfx "meta.json"))
          (getObject e₂.writers.store .served (key pfx "workflows.parquet"))
          (getObject e₃.writers.store .served (key pfx "runs.parquet")) last none =
        .ok (if Untouched pfx e₁ e₂ "workflows.parquet" ∧ Untouched pfx e₁ e₃ "runs.parquet" then
          ⟨some publication, .fresh, none⟩ else retainedResult last .torn) := by
  obtain ⟨hgrows₂, hlog₂⟩ := exporterRun_grows h₂
  obtain ⟨hgrows₃, hlog₃⟩ := exporterRun_grows h₃
  have hnew₂ := hnew.of_grows hgrows₃
  have hnew₁ := hnew₂.of_grows hgrows₂
  obtain ⟨he₁, hcommits₁, hinv₁⟩ := exporterReachable_inv hpq hjson h₁ hnew₁
  obtain ⟨_, hcommits₂, hinv₂⟩ := exporterReachable_inv hpq hjson (h₁.trans h₂) hnew₂
  obtain ⟨_, hcommits₃, hinv₃⟩ := exporterReachable_inv hpq hjson ((h₁.trans h₂).trans h₃) hnew
  -- the cycle of the stored marker, seen from each of the three moments
  obtain ⟨c, hc, hat₁⟩ := hinv₁.committed hcommitted
  have hat₂ := hat₁.later (hgrows₂.cycles.subset hc) hinv₂ hcommits₂.writers hlog₂ hcommitted
  have hat₃ := hat₁.later ((hgrows₂.cycles.trans hgrows₃.cycles).subset hc) hinv₃
    hcommits₃.writers (hlog₂.trans hlog₃) hcommitted
  have hmeta : ("meta.json", c.payloads.meta) ∈ c.payloads.objects := by simp [Payloads.objects]
  have hworkflows : ("workflows.parquet", c.payloads.workflows) ∈ c.payloads.objects := by
    simp [Payloads.objects]
  have hruns : ("runs.parquet", c.payloads.runs) ∈ c.payloads.objects := by simp [Payloads.objects]
  have hmarker := hinv₁.stored_of_untouched hat₁ hmeta (untouched_marker e₁)
  obtain ⟨store, hlast, hobjects⟩ := hcommits₁.last_commit he₁ hnew₁ hc hmarker
  obtain ⟨metaJson, hdecode, hone⟩ := hinv₁.whole c hc
  refine ⟨store, ⟨metaJson, some c.payloads.workflows, some c.payloads.runs⟩, hlast,
    ⟨⟨_, hobjects _ hmeta, hdecode⟩, (hobjects _ hworkflows).symm, (hobjects _ hruns).symm⟩,
    fun last => ?_⟩
  by_cases hw : Untouched pfx e₁ e₂ "workflows.parquet"
  · have hfoundW := hinv₂.stored_of_untouched hat₂ hworkflows hw
    by_cases hr : Untouched pfx e₁ e₃ "runs.parquet"
    · have hfoundR := hinv₃.stored_of_untouched hat₃ hruns hr
      rw [if_pos ⟨hw, hr⟩, read_of_found hmarker hdecode hone.valid hfoundW hfoundR]
      exact select_of_oneGeneration hone last
    · obtain ⟨runs, r, hfoundR, hidR, hne⟩ := hinv₃.stored_of_touched hcommits₃.writers hat₃
        (by decide) hr
      rw [if_neg fun h => hr h.2, read_of_found hmarker hdecode hone.valid hfoundW hfoundR]
      refine select_of_rejected last none (rejectionReason_of_torn hone.valid hone.meta
        hone.workflows hidR fun h => hne h.2.symm)
  · obtain ⟨workflows, w, hfoundW, hidW, hne⟩ := hinv₂.stored_of_touched hcommits₂.writers hat₂
      (by decide) hw
    -- whichever ledger the last GET finds, it names some generation
    have hfound : ∃ runs r, e₃.writers.store (objectKey pfx "runs.parquet") = some runs ∧
        footerGenerationId py (some runs) = some r := by
      by_cases hr : Untouched pfx e₁ e₃ "runs.parquet"
      · exact ⟨_, _, hinv₃.stored_of_untouched hat₃ hruns hr, hone.runs⟩
      · obtain ⟨runs, r, hfoundR, hidR, _⟩ := hinv₃.stored_of_touched hcommits₃.writers hat₃
          (by decide) hr
        exact ⟨runs, r, hfoundR, hidR⟩
    obtain ⟨runs, r, hfoundR, hidR⟩ := hfound
    rw [if_neg fun h => hw h.1, read_of_found hmarker hdecode hone.valid hfoundW hfoundR]
    exact select_of_rejected last none (rejectionReason_of_torn hone.valid hone.meta hidW hidR
      fun h => hne h.1.symm)

/-- The second cycle puts its snapshot between the first two GETs of a read. -/
theorem read_exactly_torn_reference :
    ∃ e₁ e₂ : Exporter Reference.TaggedBytes,
      ExporterReachable Reference.platform Reference.config.destPrefix Reference.emptyStore e₁ ∧
      Relation.ReflTransGen
        (ExporterStep Reference.platform Reference.config.destPrefix) e₁ e₂ ∧
      ¬ Untouched Reference.config.destPrefix e₁ e₂ "workflows.parquet" ∧
      ∃ store publication, e₁.commits.getLast? = some store ∧
        Holds Reference.platform Reference.config.destPrefix store publication ∧
        ∀ last, readGenerationResult Reference.platform
            (getObject e₁.writers.store .served (key Reference.config.destPrefix "meta.json"))
            (getObject e₂.writers.store .served
              (key Reference.config.destPrefix "workflows.parquet"))
            (getObject e₂.writers.store .served (key Reference.config.destPrefix "runs.parquet"))
            last none =
          .ok (if Untouched Reference.config.destPrefix e₁ e₂ "workflows.parquet" ∧
              Untouched Reference.config.destPrefix e₁ e₂ "runs.parquet" then
            ⟨some publication, .fresh, none⟩ else retainedResult last .torn) := by
  obtain ⟨a, ha⟩ := prepare_reference 0 (by decide) 'a' (by decide)
  obtain ⟨rows, stored, _, _, _, hcompute⟩ := (prepare_eq_ready_iff _).mp ha
  obtain ⟨merged, _, _, hdecoded, _, _⟩ :=
    decode_of_compute Reference.parquetFaithful Reference.jsonFaithful hcompute
  have hreadable : Readable Reference.platform Reference.config (writePayloads
      (objectKey Reference.config.destPrefix) Reference.emptyStore a) :=
    ⟨_, writePayloads_runs Reference.emptyStore a
      (objectKey_injective Reference.config.destPrefix) ▸ hdecoded⟩
  obtain ⟨b, hb⟩ := prepare_reference_of_readable hreadable 61 (by decide) 'b' (by decide)
  have hrun : ExporterReachable Reference.platform Reference.config.destPrefix
    Reference.emptyStore _ := .refl
  have hrun := hrun.tail (.begin Reference.config _ _ _ .served rfl rfl ha)
  have hrun := hrun.tail (.putServed rfl)
  have hrun := hrun.tail (.putServed rfl)
  have hrun := hrun.tail (.putServed rfl)
  have hrun := hrun.tail .stop
  obtain ⟨e₁, hrun, hidle, hstore, hcommitted, hcycles⟩ :
      ∃ e₁, ExporterReachable Reference.platform Reference.config.destPrefix
          Reference.emptyStore e₁ ∧
        e₁.writers.publishing 0 = none ∧
        e₁.writers.store = writePayloads (objectKey Reference.config.destPrefix)
          Reference.emptyStore a ∧
        HasCommitted Reference.config.destPrefix e₁ ∧
        e₁.writers.cycles = [⟨generationId (Reference.instant 0) (Reference.uuid 'a'), a⟩] :=
    ⟨_, hrun, rfl, rfl, ⟨_, List.mem_cons_self, rfl⟩, rfl⟩
  rw [← hstore] at hb
  have hlater := (Relation.ReflTransGen.single (ExporterStep.begin Reference.config _ _ _ .served
    hidle rfl hb)).tail (.putServed rfl)
  refine ⟨e₁, _, hrun, hlater, fun huntouched => ?_, ?_⟩
  · refine huntouched ⟨generationId (Reference.instant 61) (Reference.uuid 'b'),
      objectKey Reference.config.destPrefix "workflows.parquet", b.workflows⟩ ?_ rfl
    exact mem_sinceMarker rfl
  · refine read_exactly_torn Reference.parquetFaithful Reference.jsonFaithful hrun hlater .refl
      ⟨?_, fun _ _ _ _ hfound => absurd hfound (by simp [Reference.emptyStore])⟩ hcommitted
    show (_ :: e₁.writers.cycles.map Cycle.id).Nodup
    rw [hcycles]
    exact List.nodup_cons.mpr ⟨by simpa using Ne.symm generationId_ne, List.nodup_singleton _⟩

end ArgoExporter.SharedPrefix
