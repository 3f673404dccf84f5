/-
  ArgoExporter.Ledger.Retention

  When a merge keeps the right rows.  The cutoff is compared as text, and `%Y`
  writes a year below 1000 without leading zeros, so the comparison decides
  retention as long as the boundary is representable and its text still sorts
  below the texts of the rows that it should keep.
-/

import ArgoExporter.Ledger.Spec

namespace ArgoExporter.Ledger

open ArgoExporter.Lib
open ArgoExporter.Py
open ArgoExporter.ParquetIo

variable {Bytes : Type} (py : Platform Bytes)

/-! ## Specification -/

/-- The retention boundary, in seconds from year 1; it is negative before that. -/
def boundarySecs (t : Stamp) (retentionDays : Int) : Int := t.secs - retentionDays * secondsPerDay

/-- An unobserved run is kept exactly when it was last seen at the boundary or later, and an
    observed run is kept. -/
def RetentionDecided (existing : List LedgerRow) (observed : List SnapshotRow) (t : Stamp)
    (retentionDays : Int) : Prop :=
  ∃ merged, merge py existing observed t.text retentionDays = .ok merged ∧
    (∀ row s, storedRow existing (identity row.shared) = some row →
      lastObservation observed (identity row.shared) = none → row.lastSeenAt = .str (Stamp.text s) →
        (row ∈ merged ↔ boundarySecs t retentionDays ≤ s.secs)) ∧
    ∀ key, lastObservation observed key ≠ none → ∃ row ∈ merged, identity row.shared = key

/-- Year of a second count. -/
def yearAt (secs : Int) : Nat := (Date.ofDays (secs.toNat / secondsPerDay)).year

/-- The text of an instant in year `y` sorts below the texts of the full-width year `Y`, or is at
    least as wide: with fewer digits it is their leading digits that count. -/
def SortsBelow (y Y : Nat) : Prop := 1000 ≤ y ∨ y ≤ Y / 10 ^ (4 - yearWidth y)

/-- The boundary is in year 1 or later, and its text sorts below those it is compared with. -/
structure BoundaryReadable (existing : List LedgerRow) (observed : List SnapshotRow) (t : Stamp)
    (retentionDays : Int) : Prop where
  inRange : 0 ≤ boundarySecs t retentionDays
  unobserved : ∀ row s, storedRow existing (identity row.shared) = some row →
    lastObservation observed (identity row.shared) = none → row.lastSeenAt = .str (Stamp.text s) →
      SortsBelow (yearAt (boundarySecs t retentionDays)) s.naive.date.year
  observed : (∃ key, lastObservation observed key ≠ none) →
    SortsBelow (yearAt (boundarySecs t retentionDays)) t.naive.date.year

/-! ## The computed boundary -/

/-- The boundary as a datetime. -/
def IsBoundary (b : Naive) (t : Stamp) (retentionDays : Int) : Prop :=
  (b.micros : Int) = boundarySecs t retentionDays * microsPerSecond

section Boundary

variable {b : Naive} {t : Stamp} {retentionDays : Int}

theorem IsBoundary.nonneg (h : IsBoundary b t retentionDays) :
    0 ≤ boundarySecs t retentionDays := by
  unfold IsBoundary microsPerSecond at h
  omega

theorem IsBoundary.year (h : IsBoundary b t retentionDays) :
    b.date.year = yearAt (boundarySecs t retentionDays) := by
  have hnonneg := h.nonneg
  have hdays : b.micros / microsPerDay =
      (boundarySecs t retentionDays).toNat / secondsPerDay := by
    unfold IsBoundary microsPerSecond at h
    unfold microsPerDay secondsPerDay
    omega
  rw [Naive.date, yearAt, hdays]

theorem delta_micros (t : Stamp) (retentionDays : Int) :
    (t.naive.micros : Int) - retentionDays * microsPerDay =
      boundarySecs t retentionDays * microsPerSecond := by
  rw [micros_naive, boundarySecs]
  unfold microsPerDay microsPerSecond secondsPerDay
  push_cast
  ring

/-- The cutoff is the text of the boundary, and there is one when year 1 contains it or a later
    year does. -/
theorem cutoff_eq_ok_iff (hretention : 1 ≤ retentionDays) {boundary : String} :
    cutoff py retentionDays t.text = .ok boundary ↔
      ∃ b, IsBoundary b t retentionDays ∧ boundary = strftime b := by
  have hupper := t.upper
  unfold stampMax at hupper
  constructor
  · intro h
    obtain ⟨delta, b, hdelta, hb, rfl⟩ := parts_of_cutoff py t.strptime_text h
    rw [timedeltaDays_eq_ok hdelta, delta_micros, Naive.ofMicros?_eq_some_iff] at hb
    exact ⟨b, hb, rfl⟩
  · rintro ⟨b, hb, rfl⟩
    have hnonneg := hb.nonneg
    -- a boundary in range bounds the number of days
    have hmax : retentionDays.natAbs ≤ maxTimedeltaDays := by
      unfold boundarySecs secondsPerDay at hnonneg
      unfold maxTimedeltaDays
      omega
    refine cutoff_of_parts py t.strptime_text (if_pos hmax) ?_
    rw [delta_micros, Naive.ofMicros?_eq_some_iff]
    exact hb

/-- A representable boundary is a datetime. -/
theorem exists_isBoundary (hretention : 1 ≤ retentionDays)
    (h : 0 ≤ boundarySecs t retentionDays) : ∃ b, IsBoundary b t retentionDays := by
  have hupper := t.upper
  unfold stampMax at hupper
  refine ⟨⟨(boundarySecs t retentionDays).toNat * microsPerSecond, ?_⟩, ?_⟩
  · unfold boundarySecs secondsPerDay at *
    unfold maxMicros microsPerDay microsPerSecond
    omega
  · rw [IsBoundary, Nat.cast_mul, Int.toNat_of_nonneg h]

/-- A boundary with a full-width year is a canonical instant. -/
theorem IsBoundary.exists_stamp (h : IsBoundary b t retentionDays)
    (hretention : 1 ≤ retentionDays) (hyear : 1000 ≤ b.date.year) :
    ∃ c : Stamp, (t.secs : Int) - retentionDays * secondsPerDay = c.secs ∧ c.naive = b := by
  have hupper := t.upper
  have hdays := b.date.toDays_bounds.1
  have hfirst := daysBeforeYear_le (by decide) hyear
  have hyear1000 : daysBeforeYear 1000 = 364877 := by decide
  have htoDays : b.date.toDays = b.micros / microsPerDay := Date.toDays_ofDays _
  unfold microsPerDay at htoDays
  unfold IsBoundary boundarySecs microsPerSecond secondsPerDay at h
  unfold stampMax at hupper
  -- the boundary is a whole number of seconds, and from the year 1000 on a stamp
  have hsecs : b.micros = b.micros / 1000000 * 1000000 := by omega
  have hlower : stampMin ≤ b.micros / 1000000 := by
    unfold stampMin
    omega
  have hupper' : b.micros / 1000000 < stampMax := by
    unfold stampMax
    omega
  refine ⟨⟨b.micros / 1000000, hlower, hupper'⟩, ?_, ?_⟩
  · show (t.secs : Int) - retentionDays * secondsPerDay = (b.micros / 1000000 : Nat)
    unfold secondsPerDay
    omega
  · rw [Naive.ext_iff, micros_naive]
    exact hsecs.symm

/-- A boundary before year 1000 is before every canonical instant. -/
theorem IsBoundary.le_of_early (h : IsBoundary b t retentionDays) (hyear : b.date.year < 1000)
    (s : Stamp) : boundarySecs t retentionDays ≤ s.secs := by
  have hlower := s.lower
  have hdays := b.date.toDays_bounds.2
  have hlast := daysBeforeYear_le (Nat.le_add_left 1 _) (show b.date.year + 1 ≤ 1000 by omega)
  have hyear1000 : daysBeforeYear 1000 = 364877 := by decide
  have htoDays : b.date.toDays = b.micros / microsPerDay := Date.toDays_ofDays _
  unfold microsPerDay at htoDays
  unfold IsBoundary microsPerSecond at h
  unfold stampMin at hlower
  omega

/-- The comparison of texts keeps what the comparison of instants keeps, as long as the text of the
    boundary sorts below the others. -/
theorem IsBoundary.text_le_iff (h : IsBoundary b t retentionDays)
    (hretention : 1 ≤ retentionDays) {s : Stamp}
    (hsorts : SortsBelow (yearAt (boundarySecs t retentionDays)) s.naive.date.year) :
    strftime b ≤ s.text ↔ boundarySecs t retentionDays ≤ s.secs := by
  rw [← h.year] at hsorts
  by_cases hyear : 1000 ≤ b.date.year
  · obtain ⟨c, hc, rfl⟩ := h.exists_stamp hretention hyear
    exact text_ge_cutoff_iff hc
  · have hle : boundarySecs t retentionDays ≤ s.secs := h.le_of_early (by omega) s
    rw [Stamp.strftime_le_text (by omega)]
    exact ⟨fun _ => hle, fun _ => hsorts.resolve_left hyear⟩

/-- Conversely, the text of the boundary sorts below those it lets pass. -/
theorem IsBoundary.sortsBelow_of_text_le (h : IsBoundary b t retentionDays) {s : Stamp}
    (hle : strftime b ≤ s.text) :
    SortsBelow (yearAt (boundarySecs t retentionDays)) s.naive.date.year := by
  rw [← h.year]
  by_cases hyear : 1000 ≤ b.date.year
  · exact Or.inl hyear
  · exact Or.inr ((Stamp.strftime_le_text (by omega) s).mp hle)

end Boundary

/-! ## The decision -/

section Decision

variable {existing : List LedgerRow} {observed : List SnapshotRow} {t : Stamp}
  {retentionDays : Int}

theorem decided_of_readable (hretention : 1 ≤ retentionDays)
    (h : BoundaryReadable existing observed t retentionDays) :
    RetentionDecided py existing observed t retentionDays := by
  obtain ⟨b, hb⟩ := exists_isBoundary hretention h.inRange
  have hcut : cutoff py retentionDays t.text = .ok (strftime b) :=
    (cutoff_eq_ok_iff py hretention).mpr ⟨b, hb, rfl⟩
  obtain ⟨merged, hmerge⟩ : ∃ merged, merge py existing observed t.text retentionDays =
      .ok merged := merge_of_cutoff py hcut
  refine ⟨merged, hmerge, ?_, ?_⟩
  · intro row s hstored hlast hseen
    rw [mem_merge_of_unobserved py hcut hmerge hlast rfl, hseen, Json.orEmpty_str,
      hb.text_le_iff hretention (h.unobserved row s hstored hlast hseen)]
    exact and_iff_right hstored
  · intro key hkey
    obtain ⟨last, hlast⟩ := Option.ne_none_iff_exists'.mp hkey
    have hself : identity (observedRow py existing t.text key last).shared = key :=
      (lastObservation_mem hlast).2.2
    -- a run observed now is past its own boundary
    have hnow : boundarySecs t retentionDays ≤ t.secs := by
      unfold boundarySecs secondsPerDay
      omega
    refine ⟨observedRow py existing t.text key last, ?_, hself⟩
    rw [mem_merge_of_observed py hcut hmerge hlast hself,
      hb.text_le_iff hretention (h.observed ⟨key, hkey⟩)]
    exact ⟨rfl, hnow⟩

theorem readable_of_decided (hretention : 1 ≤ retentionDays)
    (h : RetentionDecided py existing observed t retentionDays) :
    BoundaryReadable existing observed t retentionDays := by
  obtain ⟨merged, hmerge, hunobserved, hobserved⟩ := h
  obtain ⟨boundary, hcut, _⟩ := merge_eq_ok py hmerge
  obtain ⟨b, hb, rfl⟩ := (cutoff_eq_ok_iff py hretention).mp hcut
  refine ⟨hb.nonneg, ?_, ?_⟩
  · intro row s hstored hlast hseen
    by_cases hyear : 1000 ≤ b.date.year
    · rw [← hb.year]
      exact Or.inl hyear
    · -- the boundary is before the row was last seen, so the row has been kept
      have hrow := (hunobserved row s hstored hlast hseen).mpr (hb.le_of_early (by omega) s)
      rw [mem_merge_of_unobserved py hcut hmerge hlast rfl, hseen, Json.orEmpty_str] at hrow
      exact hb.sortsBelow_of_text_le hrow.2
  · rintro ⟨key, hkey⟩
    obtain ⟨last, hlast⟩ := Option.ne_none_iff_exists'.mp hkey
    obtain ⟨row, hrow, hid⟩ := hobserved key hkey
    rw [mem_merge_of_observed py hcut hmerge hlast hid] at hrow
    exact hb.sortsBelow_of_text_le hrow.2

/-- A longer retention keeps what a shorter one keeps, where both are decided. -/
theorem RetentionDecided.mono {retentionDays' : Int}
    (h : RetentionDecided py existing observed t retentionDays)
    (h' : RetentionDecided py existing observed t retentionDays')
    (hle : retentionDays ≤ retentionDays')
    (hcanonical : ∀ row ∈ existing, ∃ s : Stamp, row.lastSeenAt = .str s.text) :
    ∃ merged merged', merge py existing observed t.text retentionDays = .ok merged ∧
      merge py existing observed t.text retentionDays' = .ok merged' ∧
      ∀ row ∈ merged, ∃ row' ∈ merged', identity row'.shared = identity row.shared := by
  obtain ⟨merged, hmerge, hunobserved, _⟩ := h
  obtain ⟨merged', hmerge', hunobserved', hobserved'⟩ := h'
  refine ⟨merged, merged', hmerge, hmerge', ?_⟩
  intro row hrow
  obtain ⟨boundary, hcut, _⟩ := merge_eq_ok py hmerge
  cases hlast : lastObservation observed (identity row.shared) with
  | some last => exact hobserved' _ (by rw [hlast]; simp)
  | none =>
      have hstored := ((mem_merge_of_unobserved py hcut hmerge hlast rfl).mp hrow).1
      obtain ⟨s, hs⟩ := hcanonical row (storedRow_mem hstored).1
      have hbound := (hunobserved row s hstored hlast hs).mp hrow
      refine ⟨row, (hunobserved' row s hstored hlast hs).mpr ?_, rfl⟩
      unfold boundarySecs secondsPerDay at *
      omega

end Decision

/-- A merge decides retention by instants exactly when its boundary is in year 1 or later and the
    text of the boundary sorts below those of the rows it has to keep. -/
theorem merge_decides_retention_iff (existing : List LedgerRow) (observed : List SnapshotRow)
    (t : Stamp) {retentionDays : Int} (hretention : 1 ≤ retentionDays) :
    RetentionDecided py existing observed t retentionDays ↔
      BoundaryReadable existing observed t retentionDays :=
  ⟨readable_of_decided py hretention, decided_of_readable py hretention⟩

/-- A stored run, last seen at `s`. -/
def seenRow (uid : String) (s : Stamp) : LedgerRow :=
  ⟨{ (Reference.row "").shared with uid := .str uid }, .str s.text, .str s.text⟩

/-- Two stored runs, three and nine days before the cycle at `instant 864000`. -/
def seenRows : List LedgerRow :=
  [seenRow "u-2" (Reference.instant 604800), seenRow "u-3" (Reference.instant 86400)]

/-- A retention of a week keeps the run of three days ago and drops the one of nine days ago. -/
theorem merge_decides_retention_iff_week :
    ∃ merged, merge Reference.platform seenRows [Reference.row ""]
        (Reference.instant 864000).text 7 = .ok merged ∧
      seenRow "u-2" (Reference.instant 604800) ∈ merged ∧
      seenRow "u-3" (Reference.instant 86400) ∉ merged ∧
      ∃ row ∈ merged, identity row.shared = identity (Reference.row "").shared := by
  have hyear : yearAt (boundarySecs (Reference.instant 864000) 7) = 2026 := by decide
  have hsorts : ∀ Y, SortsBelow (yearAt (boundarySecs (Reference.instant 864000) 7)) Y :=
    fun _ => Or.inl (by rw [hyear]; decide)
  have hreadable : BoundaryReadable seenRows [Reference.row ""] (Reference.instant 864000) 7 :=
    ⟨by decide, fun _ _ _ _ _ => hsorts _, fun _ => hsorts _⟩
  obtain ⟨merged, hmerge, hunobserved, hobserved⟩ :=
    (merge_decides_retention_iff Reference.platform seenRows [Reference.row ""]
      (Reference.instant 864000) (by decide)).mpr hreadable
  refine ⟨merged, hmerge, ?_, ?_, hobserved _ ?_⟩
  · exact (hunobserved _ (Reference.instant 604800) rfl rfl rfl).mpr (by decide)
  · exact fun h => absurd ((hunobserved _ (Reference.instant 86400) rfl rfl rfl).mp h) (by decide)
  · simp [lastObservation, Reference.row, Json.truthy]

/-- At the start of 2026 a retention of 400000 days reaches back to year 930, whose text sorts above
    that of the cycle: the run that the cycle observed is dropped. -/
theorem long_retention_drops_observed :
    (1 : Int) ≤ 400000 ∧
      ¬ RetentionDecided Reference.platform [] [Reference.row ""] (Reference.instant 0) 400000 := by
  refine ⟨by decide, fun h => ?_⟩
  have hobserved : lastObservation [Reference.row ""] (identity (Reference.row "").shared) ≠ none := by
    simp [lastObservation, Reference.row, Json.truthy]
  have hsorts := (readable_of_decided Reference.platform (by decide) h).observed ⟨_, hobserved⟩
  have hyear : yearAt (boundarySecs (Reference.instant 0) 400000) = 930 := by decide
  rw [hyear, SortsBelow] at hsorts
  exact absurd hsorts (by decide)

end ArgoExporter.Ledger
