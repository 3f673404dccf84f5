/-
  ArgoExporter.MetaSchema

  `meta_schema.py`: the schema of `meta.json`, the interpreter of its rules,
  and the rules that tie fields together.
-/

import ArgoExporter.Py.Datetime
import ArgoExporter.Py.Number
import ArgoExporter.Py.Platform
import Mathlib.Data.List.Sort
import Mathlib.Data.Prod.Lex
import Mathlib.Data.String.Basic

namespace ArgoExporter.MetaSchema

open ArgoExporter.Lib
open ArgoExporter.Py

/-! ## Rules -/

/-- A regular expression that is a sequence of single-character classes, with its source text. -/
structure Pattern where
  source : String
  classes : List (Char → Bool)

/-- Every character is in the class of its position. -/
def matchesClasses : List (Char → Bool) → List Char → Bool
  | [], [] => true
  | p :: ps, c :: cs => p c && matchesClasses ps cs
  | _, _ => false

/-- `re.fullmatch(pattern, text) is not None`. -/
def Pattern.fullmatch (pattern : Pattern) (text : String) : Bool :=
  matchesClasses pattern.classes text.toList

/-- The keywords of the schema, as its rules use them. -/
inductive Rule where
  | object (required : List String) (properties : List (String × Rule))
  | array (minItems : Nat) (items : Rule)
  | string (minLength : Nat) (pattern : Option Pattern) (isTimestamp : Bool)
  | integer (minimum : Option Int)
  | boolean

def Rule.typeName : Rule → String
  | object .. => "object"
  | array .. => "array"
  | string .. => "string"
  | integer .. => "integer"
  | boolean => "boolean"

/-- `\d`, which also matches digits outside ASCII. -/
def digitClass (c : Char) : Bool := (decimal? c).isSome

def hexClass (c : Char) : Bool := (48 ≤ c.toNat && c.toNat ≤ 57) || (97 ≤ c.toNat && c.toNat ≤ 102)

def literal (c : Char) : Char → Bool := fun x => x = c

def timestampClasses : List (Char → Bool) :=
  List.replicate 4 digitClass ++ literal '-' :: List.replicate 2 digitClass ++
    literal '-' :: List.replicate 2 digitClass ++ literal 'T' :: List.replicate 2 digitClass ++
    literal ':' :: List.replicate 2 digitClass ++ literal ':' :: List.replicate 2 digitClass ++
    [literal 'Z']

def timestampSource : String :=
  "\\d\x7b4\x7d-\\d\x7b2\x7d-\\d\x7b2\x7dT\\d\x7b2\x7d:\\d\x7b2\x7d:\\d\x7b2\x7dZ"

/-- `_GENERATION_ID`. -/
def generationIdPattern : Pattern :=
  ⟨timestampSource ++ "-[0-9a-f]\x7b12\x7d",
    timestampClasses ++ literal '-' :: List.replicate 12 hexClass⟩

def clusterSchema : Rule :=
  .object ["name", "ok", "workflows"]
    [("name", .string 1 none false), ("ok", .boolean), ("workflows", .integer (some 0))]

/-- `META_SCHEMA`. -/
def metaSchema : Rule :=
  .object
    ["version", "generated_at", "generation_id", "poll_interval_seconds", "run_retention_days",
     "clusters", "workflows", "runs"]
    [("version", .string 1 none false),
     ("generated_at", .string 1 none true),
     ("generation_id", .string 1 (some generationIdPattern) false),
     ("poll_interval_seconds", .integer (some 1)),
     ("run_retention_days", .integer (some 1)),
     ("clusters", .array 1 clusterSchema),
     ("workflows", .integer (some 0)),
     ("runs", .integer (some 0))]

/-! ## Interpreter -/

variable {Bytes : Type} (py : Platform Bytes)

def describe (value : Json) : String :=
  match value with
  | .str _ => s!"string {py.repr value}"
  | .null => "null"
  | v => s!"{v.typeName} {py.repr v}"

def wrongType (value : Json) (rule : Rule) (path : String) : List String :=
  [s!"{path} must be a JSON {rule.typeName}, got {describe py value}"]

def checkString (s : String) (minLength : Nat) (pattern : Option Pattern) (isTimestamp : Bool)
    (path : String) : List String :=
  (if s.length < minLength then [s!"{path} must not be empty"] else []) ++
  (match pattern with
    | some p =>
        if p.fullmatch s then []
        else [s!"{path} must match /{p.source}/ exactly, got {py.repr (.str s)}"]
    | none => []) ++
  (if isTimestamp ∧ strptime s = none then
    [s!"{path} is shaped like a timestamp but not a real UTC time: {py.repr (.str s)}"]
  else [])

def checkInteger (n : Int) (minimum : Option Int) (path : String) : List String :=
  match minimum with
  | some least => if n < least then [s!"{path} must be >= {least}, got {n}"] else []
  | none => []

def missingFields (value : Json) (required : List String) (path : String) : List String :=
  (required.filter fun key => ¬ value.has key).map fun key =>
    s!"{path} is missing required field {py.repr (.str key)}"

def unexpectedFields (fields : List (String × Json)) (known : List String) (path : String) :
    List String :=
  (fields.filter fun e => ¬ known.contains e.1).map fun e =>
    s!"{path} has unexpected field {py.repr (.str e.1)}"

def tooFewItems (items : List Json) (minItems : Nat) (path : String) : List String :=
  if items.length < minItems then
    [s!"{path} must have at least {minItems} item(s), got {items.length}"]
  else []

mutual

/-- The violations of a rule, `path` naming the value they are about. -/
def check (value : Json) (path : String) : Rule → List String
  | .object required properties =>
      match value with
      | .obj fields =>
          missingFields py value required path ++
          unexpectedFields py fields (properties.map Prod.fst) path ++
          checkProperties value path properties
      | v => wrongType py v (.object required properties) path
  | .array minItems items =>
      match value with
      | .arr values =>
          tooFewItems values minItems path ++
          values.zipIdx.flatMap fun e => check e.1 s!"{path}[{e.2}]" items
      | v => wrongType py v (.array minItems items) path
  | .string minLength pattern isTimestamp =>
      match value with
      | .str s => checkString py s minLength pattern isTimestamp path
      | v => wrongType py v (.string minLength pattern isTimestamp) path
  | .integer minimum =>
      match value with
      | .int n => checkInteger n minimum path
      | v => wrongType py v (.integer minimum) path
  | .boolean =>
      match value with
      | .bool _ => []
      | v => wrongType py v .boolean path

/-- The violations of the properties a value has. -/
def checkProperties (value : Json) (path : String) : List (String × Rule) → List String
  | [] => []
  | (key, rule) :: rest =>
      (match value.get? key with
        | some v => check v s!"{path}.{key}" rule
        | none => []) ++ checkProperties value path rest

end

/-! ## Rules across fields -/

/-- `sorted` of distinct hashable values: numbers or strings, or a single value. -/
def sortNames (names : List Json) : Except Exc (List Json) :=
  if names.length ≤ 1 then .ok names
  else if names.all Json.isStr then
    .ok (names.insertionSort fun a b => a.orEmpty ≤ b.orEmpty)
  else if names.all fun n => n.numKey?.isSome then
    .ok (names.insertionSort fun a b =>
      toLex (a.numKey?.getD (0, 0)) ≤ toLex (b.numKey?.getD (0, 0)))
  else raise .typeError "'<' not supported between instances of different types"

/-- The names that occur more than once, each of them once. -/
def duplicatedNames (names : List Json) : Except Exc (List Json) :=
  let repeated := names.filter fun n => 1 < (names.filter fun m => n.pyEq m).length
  match repeated.find? fun n => !n.hashable with
  | some n => raise .typeError s!"unhashable type: '{n.typeName}'"
  | none =>
      sortNames (repeated.foldl (fun seen n => if seen.any n.pyEq then seen else seen ++ [n]) [])

/-- The count a cluster entry reports, if it is an integer. -/
def reported (cluster : Json) : Option Int :=
  match cluster.get "workflows" with
  | .int n => some n
  | _ => none

/-- `c.get("ok") is True`, and the same for `False`. -/
def okIs (cluster : Json) (b : Bool) : Bool :=
  match cluster.get "ok" with
  | .bool ok => ok = b
  | _ => false

/-- The sum of the counts of the ok clusters. -/
def accounted (clusters : List Json) : Int :=
  ((clusters.filter fun c => okIs c true).filterMap reported).sum

def unavailableWithRows (entry : Json × Nat) : List String :=
  let name := entry.1.get "name"
  if okIs entry.1 false ∧ (reported entry.1).any (fun n => n ≠ 0) then
    [s!"meta.clusters[{entry.2}] ({py.repr name}) is ok=false and must report " ++
      "workflows=0 -- that count is rows included, not an emptiness claim"]
  else []

def identityViolations (metaJson : Json) : List String :=
  match metaJson.get "generated_at", metaJson.get "generation_id" with
  | .str generatedAt, .str generationId =>
      let start := generatedAt ++ "-"
      if start.toList.isPrefixOf generationId.toList then []
      else
        [s!"meta.generation_id must extend meta.generated_at: {py.repr (.str generationId)} " ++
          s!"does not start with {py.repr (.str start)}"]
  | _, _ => []

/-- The integers of a decoded document have at most `maxStrDigits` digits and can be printed; a sum
    of them may have more. -/
def accountedViolations (clusters : List Json) (total : Int) : Except Exc (List String) :=
  if accounted clusters = total then .ok []
  else do
    let shown ← strInt (accounted clusters)
    return ["meta.workflows must equal the sum of the ok clusters' workflows: " ++
      s!"clusters account for {shown}, sidecar says {total}"]

def clusterViolations (metaJson : Json) : Except Exc (List String) :=
  match metaJson.get "clusters", metaJson.get "workflows" with
  | .arr clusters, .int total => do
      let names := (clusters.filter Json.isDict).map fun c => c.get "name"
      let duplicated ← duplicatedNames names
      let unaccounted ← accountedViolations clusters total
      return (if duplicated.isEmpty then [] else
        [s!"meta.clusters has duplicate names {py.repr (.arr duplicated)}; " ++
          "one entry per configured cluster, no repeats"]) ++
        unaccounted ++ clusters.zipIdx.flatMap (unavailableWithRows py)
  | _, _ => .ok []

/-- The violations of the rules the schema cannot state. -/
def crossFieldViolations (metaJson : Json) : Except Exc (List String) :=
  match metaJson with
  | .obj _ => do return identityViolations py metaJson ++ (← clusterViolations py metaJson)
  | _ => .ok []

/-- `validate`: every violation in one error. -/
def validate (metaJson : Json) : Except Exc Unit := do
  let errors := check py metaJson "meta" metaSchema
  let errors := errors ++ (← crossFieldViolations py metaJson)
  if errors.isEmpty then return ()
  else raise .metaSchemaError ("meta.json violates its schema:\n  " ++ "\n  ".intercalate errors)

/-- A value is accepted when neither the rules nor the checks across fields report anything. -/
theorem validate_eq_ok_iff (metaJson : Json) :
    validate py metaJson = .ok () ↔
      check py metaJson "meta" metaSchema = [] ∧ crossFieldViolations py metaJson = .ok [] := by
  unfold validate
  cases hcross : crossFieldViolations py metaJson with
  | error e => simp
  | ok violations =>
      rw [ok_bind, Except.ok.injEq]
      -- the report is empty when both parts of it are
      by_cases h : (check py metaJson "meta" metaSchema ++ violations).isEmpty = true
      · rw [if_pos h]
        rw [List.isEmpty_iff, List.append_eq_nil_iff] at h
        exact ⟨fun _ => h, fun _ => rfl⟩
      · rw [if_neg h]
        rw [List.isEmpty_iff, List.append_eq_nil_iff] at h
        simp only [raise_eq_error, reduceCtorEq, false_iff]
        exact h

end ArgoExporter.MetaSchema
