/-
  ArgoExporter.Workflows.CompressedNodes

  What a malformed `compressedNodes` field does to a row.  Base64, gzip and JSON
  each fail with exceptions of their own; all of them are caught but
  `zlib.error`, which a valid gzip header followed by an invalid deflate stream
  raises.
-/

import ArgoExporter.Workflows.ReadFields

namespace ArgoExporter.Workflows

open ArgoExporter.Py
open ArgoExporter.ParquetIo

variable {Bytes : Type} (py : Platform Bytes)

/-! ## Specification -/

/-- What the three decoders raise. -/
structure DecodersRaise : Prop where
  b64decode : ∀ s e, py.b64decode s = .error e → e.cls.isValueError = true
  gzipDecompress : ∀ b e, py.gzipDecompress b = .error e →
    e.cls.isOSError = true ∨ e.cls = .eofError ∨ e.cls = .zlibError
  jsonLoads : ∀ b e, py.jsonLoads b = .error e → e.cls.isValueError = true

/-- The value is base64 and gzip of a JSON object. -/
def DecodesToNodes (value : Json) : Prop :=
  ∃ s entries, value = .str s ∧ s ≠ "" ∧ decodeNodeText py s = .ok (.obj entries)

/-- The value is base64 of data on which decompression raises `zlib.error`. -/
def InvalidDeflate (value : Json) : Prop :=
  ∃ s compressed msg, value = .str s ∧ s ≠ "" ∧ py.b64decode s = .ok compressed ∧
    py.gzipDecompress compressed = .error ⟨.zlibError, msg⟩

/-- The object with this value as its `status.compressedNodes`. -/
def withCompressedNodes (wf value : Json) : Json :=
  wf.set "status" ((orEmptyDict (wf.get "status")).set "compressedNodes" value)

/-! ## The decoder -/

variable {py}

/-- Every exception of the decoders is caught, except `zlib.error` of the decompression. -/
theorem uncaught_decodeNodeText_iff (hraises : DecodersRaise py) (s : String) :
    (∃ e, decodeNodeText py s = .error e ∧ caughtByNodeDecoder e.cls = false) ↔
      ∃ compressed msg, py.b64decode s = .ok compressed ∧
        py.gzipDecompress compressed = .error ⟨.zlibError, msg⟩ := by
  unfold decodeNodeText
  constructor
  · rintro ⟨e, h, huncaught⟩
    -- the decoder catches every ValueError
    have hnotValue : e.cls.isValueError = false := by
      cases hv : e.cls.isValueError with
      | false => rfl
      | true => exact absurd huncaught (by simp [caughtByNodeDecoder, hv])
    rcases bind_eq_error.mp h with h | ⟨compressed, hb64, h⟩
    · exact absurd (hraises.b64decode s e h) (by simp [hnotValue])
    · rcases bind_eq_error.mp h with h | ⟨text, _, h⟩
      -- of what gzip raises, only zlib.error is not caught
      · rcases hraises.gzipDecompress compressed e h with hos | heof | hzlib
        · exact absurd huncaught (by simp [caughtByNodeDecoder, hos])
        · exact absurd huncaught (by simp [caughtByNodeDecoder, heof])
        · refine ⟨compressed, e.msg, hb64, ?_⟩
          rw [h, ← hzlib]
      · exact absurd (hraises.jsonLoads text e h) (by simp [hnotValue])
  · rintro ⟨compressed, msg, hb64, hgzip⟩
    refine ⟨⟨.zlibError, msg⟩, ?_, rfl⟩
    rw [hb64, ok_bind, hgzip, error_bind]

/-- A value that is no node map is read as an empty one, unless it is an invalid deflate stream. -/
theorem decodeCompressedNodes_eq_nil_iff (hraises : DecodersRaise py) {value : Json}
    (hvalue : ¬ DecodesToNodes py value) :
    decodeCompressedNodes py value = .ok [] ↔ ¬ InvalidDeflate py value := by
  cases value with
  | str s =>
      unfold decodeCompressedNodes
      dsimp only
      -- an empty string is not decoded at all
      by_cases hs : s = ""
      · rw [if_pos hs]
        refine ⟨fun _ h => ?_, fun _ => rfl⟩
        obtain ⟨s', _, _, heq, hne, _⟩ := h
        exact hne (by rw [← Json.str.inj heq, hs])
      · rw [if_neg hs]
        have huncaught := uncaught_decodeNodeText_iff hraises s
        have hinvalid : InvalidDeflate py (.str s) ↔ ∃ compressed msg,
            py.b64decode s = .ok compressed ∧
              py.gzipDecompress compressed = .error ⟨.zlibError, msg⟩ := by
          constructor
          · rintro ⟨s', compressed, msg, heq, _, h⟩
            rw [← Json.str.inj heq] at h
            exact ⟨compressed, msg, h⟩
          · rintro ⟨compressed, msg, h⟩
            exact ⟨s, compressed, msg, rfl, hs, h⟩
        rw [hinvalid, ← huncaught]
        cases hdecode : decodeNodeText py s with
        | error e =>
            dsimp only
            cases hcaught : caughtByNodeDecoder e.cls with
            | true => simp [hcaught]
            | false => simp [hcaught]
        | ok decoded =>
            cases decoded with
            | obj entries => exact absurd ⟨s, entries, rfl, hs, hdecode⟩ hvalue
            | _ => simp
  | _ =>
      refine ⟨fun _ h => ?_, fun _ => rfl⟩
      obtain ⟨s, _, _, heq, _⟩ := h
      exact absurd heq (by simp)

/-- What the decoder returns for such a value is an empty map. -/
theorem decodeCompressedNodes_of_ok {value : Json} {nodes : List (String × Json)}
    (hvalue : ¬ DecodesToNodes py value) (h : decodeCompressedNodes py value = .ok nodes) :
    decodeCompressedNodes py value = .ok [] := by
  cases value with
  | str s =>
      unfold decodeCompressedNodes at h ⊢
      dsimp only at h ⊢
      by_cases hs : s = ""
      · rw [if_pos hs]
      · rw [if_neg hs] at h ⊢
        cases hdecode : decodeNodeText py s with
        | error e =>
            rw [hdecode] at h
            dsimp only at h ⊢
            split_ifs at h ⊢
            rfl
        | ok decoded =>
            cases decoded with
            | obj entries => exact absurd ⟨s, entries, rfl, hs, hdecode⟩ hvalue
            | _ => rfl
  | _ => rfl

/-! ## The object with the field -/

section Field

variable {wf : Json} (value : Json)

theorem validWorkflow_withCompressedNodes (h : ValidWorkflow wf) :
    ValidWorkflow (withCompressedNodes wf value) :=
  validWorkflow_withStatusField value h (by decide) fun hfield => absurd hfield (by decide)

/-- Only the node map can tell the two objects apart. -/
theorem sameReads_withCompressedNodes (hdict : wf.isDict = true) :
    SameReads wf (withCompressedNodes wf value) :=
  sameReads_withStatusField value hdict (by decide)

theorem nodesOf_withCompressedNodes (hvalid : ValidWorkflow wf)
    (hnodes : (wf.get "status").get "nodes" = .null) :
    nodesOf py ((withCompressedNodes wf value).get "status") = decodeCompressedNodes py value := by
  have hnull : ((withCompressedNodes wf value).get "status").get "nodes" = .null := by
    rw [withCompressedNodes, ← withStatusField, statusField_ne value hvalid.isDict (by decide),
      hnodes]
  have hvalue : ((withCompressedNodes wf value).get "status").get "compressedNodes" = value :=
    statusField_self value hvalid
  rw [nodesOf_of_null hnull, hvalue]

end Field

/-- A `compressedNodes` that is no node map leaves the row as it is without the field, exactly when
    its decompression does not raise `zlib.error`. -/
theorem compressedNodes_ignored_iff (hraises : DecodersRaise py) {wf value : Json}
    {clusterName observedAt : String} {row : SnapshotRow}
    (hnodes : (wf.get "status").get "nodes" = .null)
    (habsent : (wf.get "status").get? "compressedNodes" = none)
    (hvalue : ¬ DecodesToNodes py value)
    (hrow : toRow py wf clusterName observedAt = .ok row) :
    toRow py (withCompressedNodes wf value) clusterName observedAt = .ok row ↔
      ¬ InvalidDeflate py value := by
  obtain ⟨hvalid, _⟩ := toRow_eq_ok_iff.mp hrow
  have hbase : nodesOf py (wf.get "status") = .ok [] := by
    rw [nodesOf_of_null hnodes, Json.get, habsent]
    rfl
  have hwith : nodesOf py ((withCompressedNodes wf value).get "status") =
      decodeCompressedNodes py value :=
    nodesOf_withCompressedNodes value hvalid hnodes
  rw [← decodeCompressedNodes_eq_nil_iff hraises hvalue]
  constructor
  · intro h
    -- a row needs a decoded node map, and the only one this value can give is empty
    obtain ⟨_, nodes, hdecoded, _⟩ := toRow_ok_iff.mp ⟨row, h⟩
    rw [hwith] at hdecoded
    by_contra hne
    exact hne (decodeCompressedNodes_of_ok hvalue hdecoded)
  · intro h
    apply toRow_congr (sameReads_withCompressedNodes value hvalid.isDict)
      (validWorkflow_withCompressedNodes value hvalid) _ hrow
    intro step hstep
    rw [← hstep]
    apply failedStep_congr
    rw [hwith, h, hbase]

/-- A platform that knows one text: the base64 of a gzip header before an invalid deflate block. -/
def truncating : Platform Reference.TaggedBytes :=
  { Reference.platform with
    b64decode := fun s =>
      if s = "H4sIAAAAAAAA/wc=" then .ok (.text "1f8b08000000000000ff07")
      else raise .binasciiError "Only base64 data is allowed"
    gzipDecompress := fun
      | .text "1f8b08000000000000ff07" =>
          raise .zlibError "Error -3 while decompressing data: invalid block type"
      | _ => raise .badGzipFile "Not a gzipped file" }

theorem decodersRaise_truncating : DecodersRaise truncating where
  b64decode := by
    intro s e h
    simp only [truncating] at h
    split_ifs at h
    rw [← Except.error.inj h]
    rfl
  gzipDecompress := by
    intro b e h
    simp only [truncating] at h
    split at h
    · rw [← Except.error.inj h]
      exact Or.inr (Or.inr rfl)
    · rw [← Except.error.inj h]
      exact Or.inl rfl
  jsonLoads := by
    intro b e h
    cases b with
    | json j => exact absurd h (by simp [truncating, Reference.platform])
    | _ =>
        rw [← Except.error.inj h]
        rfl

/-- The text is no node map, because it does not even decompress. -/
theorem not_decodesToNodes_truncated : ¬ DecodesToNodes truncating (.str "H4sIAAAAAAAA/wc=") := by
  rintro ⟨s, entries, hs, _, h⟩
  rw [← Json.str.inj hs] at h
  exact absurd h (by simp [decodeNodeText, truncating])

/-- A run that failed, without a node map. -/
def failedWorkflow : Json :=
  Reference.workflow "u-1" (.obj [("phase", .str "Failed"), ("message", .str "build failed")])

/-- A value that is not even base64 changes nothing. -/
theorem compressedNodes_ignored_iff_garbled : ∃ row,
    toRow truncating failedWorkflow "alpha" "" = .ok row ∧
      toRow truncating (withCompressedNodes failedWorkflow (.str "not base64")) "alpha" "" =
        .ok row := by
  obtain ⟨row, hrow⟩ : ∃ row, toRow truncating failedWorkflow "alpha" "" = .ok row := ⟨_, rfl⟩
  have hgarbled : truncating.b64decode "not base64" =
      raise .binasciiError "Only base64 data is allowed" := rfl
  have hnodes : ¬ DecodesToNodes truncating (.str "not base64") := by
    rintro ⟨s, entries, hs, _, h⟩
    rw [← Json.str.inj hs, decodeNodeText, hgarbled] at h
    exact absurd h (by simp)
  refine ⟨row, hrow, (compressedNodes_ignored_iff decodersRaise_truncating rfl rfl hnodes hrow).mpr ?_⟩
  rintro ⟨s, compressed, msg, hs, _, h, _⟩
  rw [← Json.str.inj hs, hgarbled] at h
  exact absurd h (by simp)

/-- The row of the run is lost with the field, and so is the cluster that lists it. -/
theorem invalid_deflate_discards_row :
    (∃ row, toRow truncating failedWorkflow "alpha" "" = .ok row) ∧
      ¬ DecodesToNodes truncating (.str "H4sIAAAAAAAA/wc=") ∧
      toRow truncating (withCompressedNodes failedWorkflow (.str "H4sIAAAAAAAA/wc=")) "alpha" "" =
        .error ⟨.zlibError, "Error -3 while decompressing data: invalid block type"⟩ ∧
      fetchWorkflows truncating "" [(⟨"alpha", none, none⟩, .ok
        ([withCompressedNodes failedWorkflow (.str "H4sIAAAAAAAA/wc=")], true))] =
          .ok ([], [⟨"alpha", false, 0⟩]) :=
  ⟨⟨_, rfl⟩, not_decodesToNodes_truncated, rfl, rfl⟩

end ArgoExporter.Workflows
