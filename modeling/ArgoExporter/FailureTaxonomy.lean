/-
  ArgoExporter.FailureTaxonomy

  `failure_taxonomy.py` and `failure_classes.yaml`: the fingerprint and the
  class of a failure message.  The regular expressions are the source's own,
  run by the platform's `re`.
-/

import ArgoExporter.Py.Platform
import ArgoExporter.Py.Text

namespace ArgoExporter.FailureTaxonomy

open ArgoExporter.Py

/-! ## Rule tables -/

/-- Instance-specific tokens and their placeholders, in the order they are replaced. -/
def normalizations : List (String × String) :=
  [("\\b[0-9a-f]\x7b8\x7d-[0-9a-f]\x7b4\x7d-[0-9a-f]\x7b4\x7d-[0-9a-f]\x7b4\x7d-[0-9a-f]\x7b12\x7d\\b",
    "<uuid>"),
   ("\\b\\d\x7b4\x7d-\\d\x7b2\x7d-\\d\x7b2\x7d[ t]\\d\x7b2\x7d:\\d\x7b2\x7d:\\d\x7b2\x7d(?:[.,]\\d+)?(?:z|[+-]\\d\x7b2\x7d:?\\d\x7b2\x7d)?\\b",
    "<ts>"),
   ("\\bhttps?://[^\\s'\\\")\\]\x7d]+", "<url>"),
   ("(?<![\\w/])(?:/[a-z0-9_.@+-]+)\x7b2,\x7d/?(?::\\d+)?", "<path>"),
   ("\\b\\d+(?:\\.\\d+)?(?:ms|us|µs|ns|h|m|s)(?:\\d+(?:\\.\\d+)?(?:ms|us|µs|ns|h|m|s))*\\b",
    "<dur>"),
   ("\\b[a-z0-9]+(?:-[a-z0-9]+)\x7b1,6\x7d-[a-z0-9]\x7b5\x7d\\b", "<pod>"),
   ("\\b[a-z0-9][a-z0-9-]*(?:\\.[a-z0-9-]+)+\\.[a-z]\x7b2,\x7d\\b", "<node>"),
   ("\\b\\d\x7b1,3\x7d(?:\\.\\d\x7b1,3\x7d)\x7b3\x7d\\b", "<ip>"),
   ("\\b(?=[0-9a-f]*[0-9])[0-9a-f]\x7b7,\x7d\\b", "<hash>"),
   ("\\b\\d\x7b4,\x7d\\b", "<n>")]

/-- Failure classes with their patterns; the first class with a match wins. -/
def failureRules : List (String × List String) :=
  [("timeout",
    ["deadline exceeded", "was active on the node longer than the specified deadline",
     "exceeded (its|the) deadline", "\\b(timed[ _-]?out|timeout)\\b"]),
   ("oom",
    ["\\boomkilled\\b", "\\boom\\b", "out of memory", "memory limit .\x7b0,40\x7dexceeded"]),
   ("clone_auth",
    ["failed to clone", "could not read username", "authentication required",
     "invalid username or password", "permission denied \\(publickey\\)",
     "fatal: repository .\x7b0,120\x7d not found", "http basic access is denied"]),
   ("image_pull",
    ["failed to pull (and unpack )?image", "errimagepull", "imagepullbackoff",
     "pull access denied", "manifest unknown", "\\bno such image\\b"]),
   ("test_failure",
    ["--- fail:", "\\bpytest\\b", "\\bfailed tests/", "\\bassert(ion)?\\b", "\\d+ failing"]),
   ("lint",
    ["\\b(clippy|ruff|flake8|pylint|eslint|mypy|prettier|rustfmt|golangci)\\b",
     "\\blint(ing)? (failed|error)"]),
   ("build",
    ["error\\[e\\d\x7b4\x7d\\]", "could not compile", "compilation (failed|error)",
     "failed to run custom build command", "\\bundefined:", "\\bundefined reference to\\b",
     "syntax error", "npm err!", "make(\\[\\d+\\])?: \\*\\*\\*", "\\bbuild failed\\b",
     "failed to build\\b"]),
   ("infrastructure",
    ["insufficient \\w+", "\\bevicted\\b", "\\bnode( is| was)? not ready\\b",
     "exceeded quota", "connection refused", "connection reset by peer",
     "no space left on device", "\\bi/o timeout\\b", "\\bno such host\\b",
     "\\betcdserver\\b", "upstream connect error", "service unavailable"])]

def failureClassUnknown : String := "unknown"

/-! ## Derivation -/

variable {Bytes : Type} (py : Platform Bytes)

/-- A message that is a string and not blank. -/
def usableMessage (message : Json) : Option String :=
  match message with
  | .str s => if strip s = "" then none else some s
  | _ => none

/-- Normalized text and fingerprint of a message. -/
def normalizeFailure (message : Json) : Option (String × String) :=
  (usableMessage message).map fun message =>
    let text := normalizations.foldl (fun text rule => py.reSub rule.1 rule.2 text)
      (py.lower message)
    let text := strip (py.reSub "\\s+" " " text)
    (text, String.ofList ((py.sha256hex text).toList.take 12))

/-- First class with a pattern that matches the raw message. -/
def failureClass (message : Json) : Option String :=
  (usableMessage message).map fun message =>
    match failureRules.find? fun rule => rule.2.any fun pattern => py.reSearch pattern message with
    | some rule => rule.1
    | none => failureClassUnknown

/-- The two derived columns. -/
structure FailureColumns where
  failureFingerprint : Json
  failureClass : Json

/-- The derived columns of one observation: a usable step message goes before the workflow's. -/
def failureColumns (stepMessage workflowMessage : Json) : FailureColumns :=
  let message := Json.ofStr? ((usableMessage stepMessage).or (usableMessage workflowMessage))
  ⟨Json.ofStr? ((normalizeFailure py message).map Prod.snd),
    Json.ofStr? (failureClass py message)⟩

end ArgoExporter.FailureTaxonomy
