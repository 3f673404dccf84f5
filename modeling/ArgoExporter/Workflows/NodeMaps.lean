/-
  ArgoExporter.Workflows.NodeMaps

  The two places a node map comes from.  `status.nodes` is validated and read as
  it is; `status.compressedNodes` is decoded and filtered.  A node map gives the
  same row in either place, once the entries that are no objects are left out of
  the plain one, which validation would not let through.
-/

import ArgoExporter.Workflows.CompressedNodes

namespace ArgoExporter.Workflows

open ArgoExporter.Py
open ArgoExporter.ParquetIo

variable {Bytes : Type} (py : Platform Bytes)

/-! ## Specification -/

/-- The two decoders undo these two encoders on the data. -/
structure CompressionUndone (gzipCompress : Bytes → Bytes) (b64encode : Bytes → String)
    (data : Bytes) : Prop where
  gzipDecompress : py.gzipDecompress (gzipCompress data) = .ok data
  b64decode : py.b64decode (b64encode (gzipCompress data)) = .ok (gzipCompress data)
  nonempty : b64encode (gzipCompress data) ≠ ""

/-- The object with this value as its `status.nodes`. -/
def withNodes (wf value : Json) : Json :=
  wf.set "status" ((orEmptyDict (wf.get "status")).set "nodes" value)

/-- The entries of a node map that are objects. -/
def objectEntries (nodes : List (String × Json)) : List (String × Json) :=
  nodes.filter fun e => e.2.isDict

/-- The fields of a node map's objects that the exporter reads are strings or null. -/
def TextualNodes (nodes : List (String × Json)) : Prop :=
  ∀ e ∈ nodes, e.2.isDict = true → ∀ field ∈ nodeFields, IsText (e.2.get field)

/-! ## The plain map -/

theorem validNodes_objectEntries {nodes : List (String × Json)} (h : TextualNodes nodes) :
    ValidNodes (.obj (objectEntries nodes)) := by
  refine Or.inr ⟨rfl, ?_⟩
  intro e he
  obtain ⟨hmem, hdict⟩ := List.mem_filter.mp he
  exact ⟨hdict, h e hmem hdict⟩

section Plain

variable {py} {wf : Json} {nodes : List (String × Json)}

theorem validWorkflow_withNodes (hvalid : ValidWorkflow wf) (h : TextualNodes nodes) :
    ValidWorkflow (withNodes wf (.obj (objectEntries nodes))) :=
  validWorkflow_withStatusField _ hvalid (by decide) fun _ => validNodes_objectEntries h

theorem nodesOf_withNodes (hvalid : ValidWorkflow wf) :
    nodesOf py ((withNodes wf (.obj nodes)).get "status") = .ok nodes :=
  nodesOf_of_nodes (statusField_self (.obj nodes) hvalid)

end Plain

/-! ## The compressed map -/

variable {py}

/-- Decoding an encoded node map leaves out the entries that are no objects, and nothing else. -/
theorem decodeCompressedNodes_encoded (hjson : JsonFaithful py) {gzipCompress : Bytes → Bytes}
    {b64encode : Bytes → String} {nodes : List (String × Json)} {data : Bytes}
    (hkeys : (Json.obj nodes).DistinctKeys) (hdumps : py.jsonDumps (.obj nodes) = .ok data)
    (hundone : CompressionUndone py gzipCompress b64encode data) :
    decodeCompressedNodes py (.str (b64encode (gzipCompress data))) =
      .ok (objectEntries nodes) := by
  have htext : decodeNodeText py (b64encode (gzipCompress data)) = .ok (.obj nodes) := by
    rw [decodeNodeText, hundone.b64decode, ok_bind, hundone.gzipDecompress, ok_bind]
    exact hjson.loads_dumps _ _ hkeys hdumps
  unfold decodeCompressedNodes
  dsimp only
  rw [if_neg hundone.nonempty, htext]
  rfl

/-! ## The rows -/

/-- A node map gives the same row compressed and plain. -/
theorem compressed_row_eq_plain_row (hjson : JsonFaithful py) {gzipCompress : Bytes → Bytes}
    {b64encode : Bytes → String} {wf : Json} {nodes : List (String × Json)} {data : Bytes}
    (hvalid : ValidWorkflow wf) (habsent : (wf.get "status").get "nodes" = .null)
    (hkeys : (Json.obj nodes).DistinctKeys) (hnodes : TextualNodes nodes)
    (hdumps : py.jsonDumps (.obj nodes) = .ok data)
    (hundone : CompressionUndone py gzipCompress b64encode data)
    (clusterName observedAt : String) :
    toRow py (withCompressedNodes wf (.str (b64encode (gzipCompress data)))) clusterName
        observedAt =
      toRow py (withNodes wf (.obj (objectEntries nodes))) clusterName observedAt := by
  have hcompressed := sameReads_withCompressedNodes (.str (b64encode (gzipCompress data)))
    hvalid.isDict
  have hplain : SameReads wf (withNodes wf (.obj (objectEntries nodes))) :=
    sameReads_withStatusField _ hvalid.isDict (by decide)
  apply toRow_eq_of_sameReads (hcompressed.symm.trans hplain)
    (validWorkflow_withCompressedNodes _ hvalid) (validWorkflow_withNodes hvalid hnodes)
  -- both sources give the object entries to the selection of the step
  apply failedStep_congr
  rw [nodesOf_withCompressedNodes _ hvalid habsent, nodesOf_withNodes hvalid]
  exact decodeCompressedNodes_encoded hjson hkeys hdumps hundone

/-! ## A map with a failed pod and an entry that is no object -/

def mixedNodes : List (String × Json) :=
  [("a", .obj [("type", .str "Pod"), ("phase", .str "Failed"), ("displayName", .str "build")]),
    ("b", .int 1)]

/-- Base64 of the compressed text. -/
def mixedText : String :=
  "H4sIAAAAAAACA6tWSlSyUqhWKqksSAUylALyU5R0FJQKMhKLwXy3xMycVLBQSmZxQU5ipV9iLlgiqTQzJ0WpFiiRBOQa1gIA" ++
    "vWtNSkkAAAA="

/-- The compressed text, in hexadecimal. -/
def mixedGzip : String :=
  "1f8b0800000000000203ab564a54b252a8562aa92c4805329402f253947414940a32128bc17cb7c4cc9c54b0504a6671" ++
    "414e62a55f622e5822a934332745a916289104e41ad60200bd6b4d4a49000000"

/-- The platform, with this one text as the base64 of this gzip data of these nodes. -/
def unpacking (text compressed : String) (nodes : List (String × Json)) :
    Platform Reference.TaggedBytes :=
  { Reference.platform with
    b64decode := fun s =>
      if s = text then .ok (.text compressed)
      else raise .binasciiError "Only base64 data is allowed"
    gzipDecompress := fun
      | .text s =>
          if s = compressed then .ok (.json (.obj nodes))
          else raise .badGzipFile "Not a gzipped file"
      | _ => raise .badGzipFile "Not a gzipped file" }

section Unpacking

variable (text compressed : String) (nodes : List (String × Json))

theorem unpacking_jsonFaithful : JsonFaithful (unpacking text compressed nodes) where
  dumps_ok := Reference.jsonFaithful.dumps_ok
  loads_dumps := Reference.jsonFaithful.loads_dumps

theorem unpacking_undone (h : text ≠ "") :
    CompressionUndone (unpacking text compressed nodes) (fun _ => .text compressed)
      (fun _ => text) (.json (.obj nodes)) where
  gzipDecompress := if_pos rfl
  b64decode := if_pos rfl
  nonempty := h

end Unpacking

/-- A compressed map with one failing pod and one value that is no node. -/
theorem compressed_row_eq_plain_row_mixed :
    toRow (unpacking mixedText mixedGzip mixedNodes)
        (withCompressedNodes failedWorkflow (.str mixedText)) "alpha" "" =
      toRow (unpacking mixedText mixedGzip mixedNodes)
        (withNodes failedWorkflow (.obj (objectEntries mixedNodes))) "alpha" "" := by
  have hvalid : ValidWorkflow failedWorkflow :=
    (validateWorkflow_eq_ok_iff Reference.platform failedWorkflow none).mp rfl
  -- the decoded object has one node and one value that is no node
  have hkeys : (Json.obj mixedNodes).DistinctKeys := by
    refine .obj (by decide) ?_
    intro e he
    rcases List.mem_cons.mp he with rfl | he
    · refine .obj (by decide) ?_
      intro field hfield
      simp only [List.mem_cons, List.not_mem_nil, or_false] at hfield
      rcases hfield with rfl | rfl | rfl <;> exact .str _
    · rw [List.mem_singleton.mp he]
      exact .int 1
  have hnodes : TextualNodes mixedNodes := by
    intro e he hdict field hfield
    rcases List.mem_cons.mp he with rfl | he
    · simp only [nodeFields, List.mem_cons, List.not_mem_nil, or_false] at hfield
      rcases hfield with rfl | rfl | rfl | rfl | rfl | rfl
      · exact isText_str "Failed"
      · exact isText_str "Pod"
      · exact isText_str "build"
      all_goals exact isText_null
    · rw [List.mem_singleton.mp he] at hdict
      exact absurd hdict (by decide)
  have htext : mixedText ≠ "" := by
    intro h
    exact absurd (String.append_eq_empty_iff.mp h).2 (by decide)
  have hundone := unpacking_undone mixedText mixedGzip mixedNodes htext
  have hrow := compressed_row_eq_plain_row (unpacking_jsonFaithful mixedText mixedGzip mixedNodes)
    hvalid rfl hkeys hnodes rfl hundone "alpha" ""
  exact hrow

end ArgoExporter.Workflows
