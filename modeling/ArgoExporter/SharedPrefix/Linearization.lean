/-
  ArgoExporter.SharedPrefix.Linearization

  One exporter and any number of consumers on a prefix.  Three GETs that fit
  together are one atomic read: it gives the commit that was newest when the
  marker was asked for, whatever was committed or half published meanwhile.
-/

import ArgoExporter.Lib.AtomicRegister
import ArgoExporter.SharedPrefix.SingleExporter

namespace ArgoExporter.SharedPrefix

open ArgoExporter.Lib.AtomicRegister
open ArgoExporter.Lib.Provenance
open ArgoExporter.Py
open ArgoExporter.S3io
open ArgoExporter.Main
open ArgoExporter.Consumer

variable {Bytes : Type} (py : Platform Bytes) (pfx : String) (initial : ObjectStore Bytes)

/-! ## The system -/

/-- Commits, requests for the marker and results of reads, in the order in which they happen. -/
abbrev Trace (Bytes : Type) := List (Event ℕ (ObjectStore Bytes) (PublicationResult Bytes))

/-- The exporter and the consumers, with the trace of the run, newest first. -/
structure Fleet (Bytes : Type) where
  exporter : Exporter Bytes
  readers : ℕ → Reader Bytes
  trace : Trace Bytes

def Fleet.start : Fleet Bytes :=
  ⟨Exporter.start pfx initial, fun _ => Reader.start,
    (Exporter.start pfx initial).commits.reverse.map .write⟩

/-- The commits a step of the exporter makes. -/
def Exporter.events (e e' : Exporter Bytes) : Trace Bytes :=
  (e'.commits.drop e.commits.length).reverse.map .write

/-- An idle consumer can only ask for the marker; any other step may end its read. -/
def Reader.events (consumer : ℕ) (r r' : Reader Bytes) : Trace Bytes :=
  match r.reading with
  | .idle => [.ask consumer]
  | _ => (r'.results.take (r'.results.length - r.results.length)).map (.answer consumer)

/-- The exporter or one of the consumers takes a step. -/
inductive FleetStep : Fleet Bytes → Fleet Bytes → Prop where
  | exporter {f : Fleet Bytes} {e : Exporter Bytes} (h : ExporterStep py pfx f.exporter e) :
      FleetStep f { f with exporter := e, trace := f.exporter.events e ++ f.trace }
  | reader {f : Fleet Bytes} (consumer : ℕ) {r : Reader Bytes}
      (h : ReaderStep py pfx f.exporter.writers.store (f.readers consumer) r) :
      FleetStep f { f with
        readers := Function.update f.readers consumer r
        trace := (f.readers consumer).events consumer r ++ f.trace }

/-- The states of any run from these objects. -/
def FleetReachable (f : Fleet Bytes) : Prop :=
  Relation.ReflTransGen (FleetStep py pfx) (Fleet.start pfx initial) f

/-! ## Atomic reads -/

/-- A fresh result with the three objects of a commit. -/
def Reports (commit : Option (ObjectStore Bytes)) (result : PublicationResult Bytes) : Prop :=
  result.status = .fresh ∧ ∃ store publication, commit = some store ∧
    result.publication = some publication ∧ Holds py pfx store publication

/-- A result that is not fresh and repeats the publication of the consumer's last one. -/
def Repeats (last : Option (PublicationResult Bytes)) (result : PublicationResult Bytes) : Prop :=
  result.status ≠ .fresh ∧ result.publication = last.bind PublicationResult.publication

variable {py pfx initial}

/-! ## The view of one consumer -/

/-- Whatever the other consumers do, one consumer and the exporter are the system with one. -/
theorem FleetReachable.single {f : Fleet Bytes} (h : FleetReachable py pfx initial f)
    (consumer : ℕ) : SingleReachable py pfx initial ⟨f.exporter, f.readers consumer⟩ := by
  induction h with
  | refl => exact .refl
  | tail _ hstep ih =>
      cases hstep with
      | exporter he => exact ih.tail (.exporter he)
      | reader c hr =>
          by_cases hc : consumer = c
          · subst hc
            dsimp only
            rw [Function.update_self]
            exact ih.tail (.reader hr)
          · dsimp only
            rw [Function.update_of_ne hc]
            exact ih

/-! ## The trace -/

/-- The invariant of the trace: it has all commits and all results, and a consumer in the middle of
    a read got the marker of the commit that was newest when it asked. -/
structure FleetInv (py : Platform Bytes) (pfx : String) (initial : ObjectStore Bytes)
    (f : Fleet Bytes) : Prop where
  commits : writes f.trace = f.exporter.commits.reverse
  results : ∀ consumer, answers consumer f.trace = (f.readers consumer).results
  asked : ∀ consumer getMeta, (f.readers consumer).reading.marker = some getMeta →
    ∀ data, getMeta = .ok data → ∃ store, (known consumer f.trace).head? = some store ∧
      store (objectKey pfx "meta.json") = some data
  isAtomic : NewIds py pfx initial f.exporter.writers → Atomic (Reports py pfx) Repeats f.trace

theorem fleetInv_start : FleetInv py pfx initial (Fleet.start pfx initial) where
  commits := by
    have hwrites : writes ((Fleet.start pfx initial).trace ++ []) = _ ++ [] :=
      writes_map_write (Exporter.start pfx initial).commits.reverse []
    rwa [List.append_nil, List.append_nil] at hwrites
  results consumer := by
    have hanswers : answers consumer ((Fleet.start pfx initial).trace ++ []) = [] :=
      answers_map_write consumer (Exporter.start pfx initial).commits.reverse []
    rwa [List.append_nil] at hanswers
  asked consumer getMeta hmarker := absurd hmarker (by simp [Fleet.start, Reader.start, Reading.marker])
  isAtomic _ := by
    have hatomic : Atomic (Reports py pfx) Repeats ((Fleet.start pfx initial).trace ++ []) :=
      Atomic.nil.map_write (Exporter.start pfx initial).commits.reverse
    rwa [List.append_nil] at hatomic

theorem exporterStep_fleet {f : Fleet Bytes} {e : Exporter Bytes}
    (h : FleetInv py pfx initial f) (hstep : ExporterStep py pfx f.exporter e) :
    FleetInv py pfx initial { f with
      exporter := e, trace := f.exporter.events e ++ f.trace } := by
  have hgrows := exporterStep_grows hstep
  refine ⟨?_, fun consumer => ?_, fun consumer getMeta hmarker data hdata => ?_, fun hnew => ?_⟩
  · show writes (List.map Event.write _ ++ f.trace) = e.commits.reverse
    obtain ⟨later, hlater⟩ := hgrows.commits
    rw [writes_map_write, h.commits, ← hlater, List.drop_left, List.reverse_append]
  · exact (answers_map_write consumer _ f.trace).trans (h.results consumer)
  · obtain ⟨store, hstore, hfound⟩ := h.asked consumer getMeta hmarker data hdata
    refine ⟨store, ?_, hfound⟩
    show (known consumer (List.map Event.write _ ++ f.trace)).head? = some store
    rw [known_map_write, hstore]
  · exact (h.isAtomic (hnew.of_grows hgrows)).map_write _

/-- A step inside a read, or one that ends it without a result, leaves no trace. -/
theorem FleetInv.quiet {f : Fleet Bytes} (h : FleetInv py pfx initial f) (c : ℕ)
    {r : Reader Bytes} (hresults : r.results = (f.readers c).results)
    (hmarker : r.reading.marker = (f.readers c).reading.marker ∨ r.reading.marker = none) :
    FleetInv py pfx initial { f with readers := Function.update f.readers c r } where
  commits := h.commits
  results consumer := by
    by_cases hc : consumer = c
    · subst hc
      dsimp only
      rw [Function.update_self, hresults, h.results]
    · dsimp only
      rw [Function.update_of_ne hc, h.results]
  asked consumer getMeta hread := by
    dsimp only at hread
    by_cases hc : consumer = c
    · subst hc
      rw [Function.update_self] at hread
      rcases hmarker with hmarker | hmarker
      · exact h.asked consumer getMeta (hmarker ▸ hread)
      · rw [hmarker] at hread
        exact absurd hread (by simp)
    · rw [Function.update_of_ne hc] at hread
      exact h.asked consumer getMeta hread
  isAtomic := h.isAtomic

/-- A consumer asks for the marker: it is the one of the last commit. -/
theorem FleetInv.ask {f : Fleet Bytes} (h : FleetInv py pfx initial f)
    (he : ExporterInv pfx initial f.exporter) (c : ℕ) (outcome : GetOutcome) :
    FleetInv py pfx initial { f with
      readers := Function.update f.readers c
        ⟨.gotMeta (getObject f.exporter.writers.store outcome (key pfx "meta.json")),
          (f.readers c).lastComplete, (f.readers c).results⟩
      trace := .ask c :: f.trace } where
  commits := h.commits
  results consumer := by
    refine Eq.trans (h.results consumer) ?_
    dsimp only
    by_cases hc : consumer = c
    · subst hc
      rw [Function.update_self]
    · rw [Function.update_of_ne hc]
  asked consumer getMeta hread data hdata := by
    dsimp only at hread
    show ∃ store, (if c = consumer then writes f.trace else known consumer f.trace).head? =
      some store ∧ _
    by_cases hc : consumer = c
    · subst hc
      rw [Function.update_self, Reading.marker, Option.some.injEq] at hread
      obtain ⟨store, hlast, hstore⟩ := he.marker data (getObject_eq_ok (hread.trans hdata))
      refine ⟨store, ?_, hstore⟩
      rw [if_pos rfl, h.commits, List.head?_reverse, hlast]
    · rw [Function.update_of_ne hc] at hread
      rw [if_neg (Ne.symm hc)]
      exact h.asked consumer getMeta hread data hdata
  isAtomic hnew := (h.isAtomic hnew).ask c

/-- A read that returns is right for the moment it asked, or repeats. -/
theorem FleetInv.right_or_again {f : Fleet Bytes} (h : FleetInv py pfx initial f) {c : ℕ}
    (hsingle : SingleInv py pfx initial ⟨f.exporter, f.readers c⟩)
    (hnew : NewIds py pfx initial f.exporter.writers) {getMeta getWorkflows : Except Exc Bytes}
    {outcome : GetOutcome} {freshness : Option FreshnessCheck} {result : PublicationResult Bytes}
    (hread : (f.readers c).reading = .gotWorkflows getMeta getWorkflows)
    (hresult : readGenerationResult py getMeta getWorkflows
      (getObject f.exporter.writers.store outcome (key pfx "runs.parquet"))
      (f.readers c).lastComplete freshness = .ok result) :
    Reports py pfx (known c f.trace).head? result ∨
      Repeats (answers c f.trace).head? result := by
  rcases readGenerationResult_cases hresult with ⟨hretained, hstatus⟩ |
    ⟨marker, workflows, runs, metaJson, id, hm, hw, hr, hdecode, rfl, hone⟩
  · obtain ⟨indices, htimeline⟩ := hsingle.timeline
    refine Or.inr ⟨hstatus, ?_⟩
    rw [h.results c, hretained]
    exact htimeline.last
  · obtain ⟨store, hknown, hfound⟩ := h.asked c getMeta (by rw [hread]; rfl) marker hm
    have hcommits := hsingle.commits hnew
    have hmem : store ∈ f.exporter.commits := by
      have hwritten := (known_suffix c f.trace).subset (List.mem_of_head? hknown)
      rwa [h.commits, List.mem_reverse] at hwritten
    have hmarker : markerId py pfx store = some id := by
      rw [markerId, hfound, Option.bind_some, idOf_meta hdecode]
      exact hone.meta
    -- each file that names the generation of the marker is the one of its commit
    have hworkflows := hcommits.file_of_commit hnew hmem hmarker (Or.inl rfl)
      (hsingle.consumer.workflows _ _ hread _ hw) hone.workflows
    have hruns := hcommits.file_of_commit hnew hmem hmarker (Or.inr rfl)
      (served_of_accounts hsingle.exporter.accounts outcome "runs.parquet" _ hr) hone.runs
    exact Or.inl ⟨rfl, store, _, hknown, rfl, ⟨marker, hfound, hdecode⟩, hworkflows.symm,
      hruns.symm⟩

theorem FleetInv.answer {f : Fleet Bytes} (h : FleetInv py pfx initial f) (c : ℕ)
    {result : PublicationResult Bytes}
    (hanswer : NewIds py pfx initial f.exporter.writers →
      Reports py pfx (known c f.trace).head? result ∨
        Repeats (answers c f.trace).head? result) :
    FleetInv py pfx initial { f with
      readers := Function.update f.readers c
        ⟨.idle, result.publication, result :: (f.readers c).results⟩
      trace := .answer c result :: f.trace } where
  commits := h.commits
  results consumer := by
    show (if c = consumer then result :: answers consumer f.trace else answers consumer f.trace) = _
    dsimp only
    by_cases hc : consumer = c
    · subst hc
      rw [if_pos rfl, Function.update_self, h.results]
    · rw [if_neg (Ne.symm hc), Function.update_of_ne hc, h.results]
  asked consumer getMeta hread := by
    dsimp only at hread
    by_cases hc : consumer = c
    · subst hc
      rw [Function.update_self] at hread
      exact absurd hread (by simp [Reading.marker])
    · rw [Function.update_of_ne hc] at hread
      exact h.asked consumer getMeta hread
  isAtomic hnew := (h.isAtomic hnew).answer (hanswer hnew)

theorem readerStep_fleet {f : Fleet Bytes} {c : ℕ} {r : Reader Bytes}
    (h : FleetInv py pfx initial f)
    (hsingle : SingleInv py pfx initial ⟨f.exporter, f.readers c⟩)
    (hstep : ReaderStep py pfx f.exporter.writers.store (f.readers c) r) :
    FleetInv py pfx initial { f with
      readers := Function.update f.readers c r
      trace := (f.readers c).events c r ++ f.trace } := by
  cases hstep with
  | getMeta outcome hidle =>
      unfold Reader.events
      rw [hidle]
      exact h.ask hsingle.exporter c outcome
  | getWorkflows outcome hmeta =>
      unfold Reader.events
      rw [hmeta]
      dsimp only
      rw [Nat.sub_self]
      exact h.quiet c rfl (Or.inl (by rw [hmeta]; rfl))
  | @finish getMeta getWorkflows outcome freshness result hread hresult =>
      unfold Reader.events
      rw [hread]
      dsimp only
      rw [List.length_cons, Nat.add_sub_cancel_left]
      exact h.answer c fun hnew => h.right_or_again hsingle hnew hread hresult
  | raised outcome freshness hread hresult =>
      unfold Reader.events
      rw [hread]
      dsimp only
      rw [Nat.sub_self]
      exact h.quiet c rfl (Or.inr rfl)

theorem fleetReachable_inv (hpq : ParquetIo.ParquetFaithful py) (hjson : JsonFaithful py)
    {f : Fleet Bytes} (h : FleetReachable py pfx initial f) : FleetInv py pfx initial f := by
  induction h with
  | refl => exact fleetInv_start
  | tail hrun hstep ih =>
      cases hstep with
      | exporter he => exact exporterStep_fleet ih he
      | reader c hr =>
          exact readerStep_fleet ih (singleReachable_inv hpq hjson (FleetReachable.single hrun c)) hr

/-! ## Runs -/

/-- In every run the trace has all the commits and all the results of each consumer, and when the
    cycles have new ids each result is the newest commit of the moment its consumer asked for the
    marker, all three objects of it, or repeats the consumer's last one. -/
theorem fleet_reads_are_atomic (hpq : ParquetIo.ParquetFaithful py) (hjson : JsonFaithful py)
    {f : Fleet Bytes} (h : FleetReachable py pfx initial f) :
    writes f.trace = f.exporter.commits.reverse ∧
      (∀ consumer, answers consumer f.trace = (f.readers consumer).results) ∧
      (NewIds py pfx initial f.exporter.writers →
        Atomic (Reports py pfx) Repeats f.trace) := by
  have hinv := fleetReachable_inv hpq hjson h
  exact ⟨hinv.commits, hinv.results, hinv.isAtomic⟩

/-- Consumer 1 asks before the first commit and is answered after it, consumer 0 asks after it. -/
theorem fleet_reads_are_atomic_reference :
    ∃ f : Fleet Reference.TaggedBytes,
      FleetReachable Reference.platform Reference.config.destPrefix Reference.emptyStore f ∧
      (answers 0 f.trace).map PublicationResult.status = [.fresh] ∧
      (answers 1 f.trace).map PublicationResult.status = [.noPublication] ∧
      Atomic (Reports Reference.platform Reference.config.destPrefix) Repeats f.trace := by
  obtain ⟨payloads, ha⟩ := prepare_reference 0 (by decide) 'a' (by decide)
  obtain ⟨rows, stored, _, _, _, hcompute⟩ := (prepare_eq_ready_iff _).mp ha
  obtain ⟨merged, _, _, _, hmeta, hone⟩ :=
    decode_of_compute Reference.parquetFaithful Reference.jsonFaithful hcompute
  have hrun : FleetReachable Reference.platform Reference.config.destPrefix Reference.emptyStore
    (Fleet.start _ _) := .refl
  have hrun := hrun.tail (.reader 1 (.getMeta .served rfl))
  have hrun := hrun.tail (.exporter (.begin Reference.config _ _ _ .served rfl rfl ha))
  have hrun := hrun.tail (.exporter (.putServed rfl))
  have hrun := hrun.tail (.exporter (.putServed rfl))
  have hrun := hrun.tail (.reader 1 (.getWorkflows .served rfl))
  have hrun := hrun.tail (.exporter (.putServed rfl))
  have hrun := hrun.tail (.reader 1 (.finish .served none rfl
    (read_of_absent (show Reference.emptyStore _ = none from rfl) _ _ none none)))
  have hrun := hrun.tail (.reader 0 (.getMeta .served rfl))
  have hrun := hrun.tail (.reader 0 (.getWorkflows .served rfl))
  have hrun := hrun.tail (.reader 0 (.finish .served none rfl
    (readStore_writePayloads _ hmeta hone none)))
  have hatomic := fleet_reads_are_atomic Reference.parquetFaithful Reference.jsonFaithful hrun
  exact ⟨_, hrun, rfl, rfl, hatomic.2.2
    ⟨List.nodup_singleton _, fun _ _ _ _ hstored => absurd hstored (by simp [Reference.emptyStore])⟩⟩

/-! ## Order across consumers -/

/-- The result reports the three objects of commit `n`. -/
def ReportsCommit (py : Platform Bytes) (pfx : String) (commits : List (ObjectStore Bytes))
    (result : PublicationResult Bytes) (n : ℕ) : Prop :=
  Reports py pfx commits[n]? result

/-- The newest of the first commits, by its index. -/
theorem reportsCommit_of_suffix {commits known : List (ObjectStore Bytes)}
    {result : PublicationResult Bytes} (hsuffix : known <:+ commits.reverse)
    (h : Reports py pfx known.head? result) :
    ReportsCommit py pfx commits result (known.length - 1) := by
  obtain ⟨hfresh, store, publication, hstore, hrest⟩ := h
  refine ⟨hfresh, store, publication, ?_, hrest⟩
  have hprefix : known.reverse <+: commits := by
    rw [← List.reverse_reverse commits]
    exact List.reverse_prefix.mpr hsuffix
  refine getElem?_of_prefix hprefix ?_
  rw [← List.length_reverse, ← List.getLast?_eq_getElem?, List.getLast?_reverse, hstore]

/-- When one consumer asks for the marker after another one was answered, and both answers are
    fresh, the second is not of an earlier commit than the first. -/
theorem fresh_reads_never_invert (hpq : ParquetIo.ParquetFaithful py) (hjson : JsonFaithful py)
    {f : Fleet Bytes} (h : FleetReachable py pfx initial f)
    (hnew : NewIds py pfx initial f.exporter.writers) {first second : ℕ}
    {a b : PublicationResult Bytes} (latest meanwhile between earlier : Trace Bytes)
    (htrace : f.trace = latest ++
      (.answer second b :: meanwhile ++ .ask second :: between ++ .answer first a :: earlier))
    (ha : a.status = .fresh) (hb : b.status = .fresh) :
    ∃ n m, n ≤ m ∧ ReportsCommit py pfx f.exporter.commits a n ∧
      ReportsCommit py pfx f.exporter.commits b m := by
  have hinv := fleetReachable_inv hpq hjson h
  have hatomic := hinv.isAtomic hnew
  have hcommits := hinv.commits
  rw [htrace] at hatomic hcommits
  obtain ⟨old, new, hold, hsuffix, hreports, hreports'⟩ := hatomic.of_append.no_inversion
    (fun last hrepeats => hrepeats.1 ha) (fun last hrepeats => hrepeats.1 hb)
  -- both clients knew the oldest commits up to some moment
  have hnewest : new <:+ f.exporter.commits.reverse := by
    rw [← hcommits, writes_append]
    exact hsuffix.trans (List.suffix_append _ _)
  refine ⟨old.length - 1, new.length - 1, ?_, ?_, ?_⟩
  · exact Nat.sub_le_sub_right hold.length_le 1
  · exact reportsCommit_of_suffix (hold.trans hnewest) hreports
  · exact reportsCommit_of_suffix hnewest hreports'

/-- Two consumers read the first commit, one after the other. -/
theorem fresh_reads_never_invert_reference :
    ∃ (f : Fleet Reference.TaggedBytes) (a b : PublicationResult Reference.TaggedBytes),
      FleetReachable Reference.platform Reference.config.destPrefix Reference.emptyStore f ∧
      answers 0 f.trace = [a] ∧ answers 1 f.trace = [b] ∧
      ∃ n m, n ≤ m ∧
        ReportsCommit Reference.platform Reference.config.destPrefix f.exporter.commits a n ∧
        ReportsCommit Reference.platform Reference.config.destPrefix f.exporter.commits b m := by
  obtain ⟨payloads, ha⟩ := prepare_reference 0 (by decide) 'a' (by decide)
  obtain ⟨rows, stored, _, _, _, hcompute⟩ := (prepare_eq_ready_iff _).mp ha
  obtain ⟨merged, _, _, _, hmeta, hone⟩ :=
    decode_of_compute Reference.parquetFaithful Reference.jsonFaithful hcompute
  have hrun : FleetReachable Reference.platform Reference.config.destPrefix Reference.emptyStore
    (Fleet.start _ _) := .refl
  have hrun := hrun.tail (.exporter (.begin Reference.config _ _ _ .served rfl rfl ha))
  have hrun := hrun.tail (.exporter (.putServed rfl))
  have hrun := hrun.tail (.exporter (.putServed rfl))
  have hrun := hrun.tail (.exporter (.putServed rfl))
  have hrun := hrun.tail (.reader 0 (.getMeta .served rfl))
  have hrun := hrun.tail (.reader 0 (.getWorkflows .served rfl))
  have hrun := hrun.tail (.reader 0 (.finish .served none rfl
    (readStore_writePayloads _ hmeta hone none)))
  have hrun := hrun.tail (.reader 1 (.getMeta .served rfl))
  have hrun := hrun.tail (.reader 1 (.getWorkflows .served rfl))
  have hrun := hrun.tail (.reader 1 (.finish .served none rfl
    (readStore_writePayloads _ hmeta hone none)))
  refine ⟨_, _, _, hrun, rfl, rfl, ?_⟩
  exact fresh_reads_never_invert Reference.parquetFaithful Reference.jsonFaithful hrun
    ⟨List.nodup_singleton _, fun _ _ _ _ hstored => absurd hstored (by simp [Reference.emptyStore])⟩
    [] [] [] _ rfl rfl rfl

end ArgoExporter.SharedPrefix
