/-
  ArgoExporter.FailureTaxonomy.Patterns

  The ten normalization rules, read.  They are what the patterns of
  `normalizations` parse to, so replacing with them is what `re` does
  (`ReFaithful`).
-/

import ArgoExporter.FailureTaxonomy
import ArgoExporter.Lib.RegexSyntax

namespace ArgoExporter.FailureTaxonomy

open ArgoExporter.Lib
open ArgoExporter.Lib.Regex
open ArgoExporter.Py

/-! ## Pieces -/

def literal (c : Char) : Pattern := .items false [.single c]

/-- `\d`. -/
def digit : Pattern := .items false [.digit]

/-- `[0-9a-f]`. -/
def hex : Pattern := .items false [.range '0' '9', .range 'a' 'f']

/-- `[a-z0-9]`. -/
def lowerAlnum : Pattern := .items false [.range 'a' 'z', .range '0' '9']

/-- `[a-z0-9-]`. -/
def hostChar : Pattern := .items false [.range 'a' 'z', .range '0' '9', .single '-']

def times (n : Nat) (r : Pattern) : Pattern := .rep r n (some n)

def plus (r : Pattern) : Pattern := .rep r 1 none

def opt (r : Pattern) : Pattern := .rep r 0 (some 1)

/-! ## Rules -/

def uuidRule : Pattern :=
  .seq .boundary <| .seq (times 8 hex) <|
  .seq (literal '-') <| .seq (times 4 hex) <|
  .seq (literal '-') <| .seq (times 4 hex) <|
  .seq (literal '-') <| .seq (times 4 hex) <|
  .seq (literal '-') <| .seq (times 12 hex) .boundary

/-- `\d{2}:\d{2}:\d{2}(?:[.,]\d+)?(?:z|[+-]\d{2}:?\d{2})?\b`. -/
def clock : Pattern :=
  .seq (times 2 digit) <| .seq (literal ':') <| .seq (times 2 digit) <| .seq (literal ':') <|
  .seq (times 2 digit) <|
  .seq (opt (.seq (.items false [.single '.', .single ',']) (plus digit))) <|
  .seq (opt (.alt (literal 'z') (.seq (.items false [.single '+', .single '-']) <|
    .seq (times 2 digit) <| .seq (opt (literal ':')) (times 2 digit)))) .boundary

def tsRule : Pattern :=
  .seq .boundary <| .seq (times 4 digit) <|
  .seq (literal '-') <| .seq (times 2 digit) <|
  .seq (literal '-') <| .seq (times 2 digit) <|
  .seq (.items false [.single ' ', .single 't']) clock

def urlRule : Pattern :=
  .seq .boundary <| .seq (literal 'h') <| .seq (literal 't') <| .seq (literal 't') <|
  .seq (literal 'p') <| .seq (opt (literal 's')) <| .seq (literal ':') <| .seq (literal '/') <|
  .seq (literal '/') <| plus (.items true
    [.space, .single '\'', .single '"', .single ')', .single ']', .single '\x7d'])

def pathRule : Pattern :=
  .seq (.notBehind [.word, .single '/']) <|
  .seq (.rep (.seq (literal '/') (plus (.items false [.range 'a' 'z', .range '0' '9',
    .single '_', .single '.', .single '@', .single '+', .single '-']))) 2 none) <|
  .seq (opt (literal '/')) (opt (.seq (literal ':') (plus digit)))

/-- `(?:ms|us|µs|ns|h|m|s)`. -/
def timeUnit : Pattern :=
  .alt (.seq (literal 'm') (literal 's')) <| .alt (.seq (literal 'u') (literal 's')) <|
  .alt (.seq (literal 'µ') (literal 's')) <| .alt (.seq (literal 'n') (literal 's')) <|
  .alt (literal 'h') <| .alt (literal 'm') (literal 's')

/-- `(?:\.\d+)?`. -/
def decimals : Pattern := opt (.seq (literal '.') (plus digit))

def durRule : Pattern :=
  .seq .boundary <| .seq (plus digit) <| .seq decimals <| .seq timeUnit <|
  .seq (.rep (.seq (plus digit) (.seq decimals timeUnit)) 0 none) .boundary

def podRule : Pattern :=
  .seq .boundary <| .seq (plus lowerAlnum) <|
  .seq (.rep (.seq (literal '-') (plus lowerAlnum)) 1 (some 6)) <|
  .seq (literal '-') <| .seq (times 5 lowerAlnum) .boundary

def nodeRule : Pattern :=
  .seq .boundary <| .seq lowerAlnum <| .seq (.rep hostChar 0 none) <|
  .seq (plus (.seq (literal '.') (plus hostChar))) <|
  .seq (literal '.') <| .seq (.rep (.items false [.range 'a' 'z']) 2 none) .boundary

def ipRule : Pattern :=
  .seq .boundary <| .seq (.rep digit 1 (some 3)) <|
  .seq (times 3 (.seq (literal '.') (.rep digit 1 (some 3)))) .boundary

def hashRule : Pattern :=
  .seq .boundary <|
  .seq (.ahead (.seq (.rep hex 0 none) (.items false [.range '0' '9']))) <|
  .seq (.rep hex 7 none) .boundary

def numberRule : Pattern := .seq .boundary <| .seq (.rep digit 4 none) .boundary

/-- `\s+`. -/
def blanks : Pattern := plus (.items false [.space])

/-- The rules with their placeholders, in the order they are applied. -/
def rules : List (Pattern × String) :=
  [(uuidRule, "<uuid>"), (tsRule, "<ts>"), (urlRule, "<url>"), (pathRule, "<path>"),
   (durRule, "<dur>"), (podRule, "<pod>"), (nodeRule, "<node>"), (ipRule, "<ip>"),
   (hashRule, "<hash>"), (numberRule, "<n>")]

/-- The rules are the patterns of the source. -/
theorem parse_normalizations :
    normalizations.map (fun rule => (parsePattern rule.1, rule.2)) =
      rules.map fun rule => (some rule.1, rule.2) := by
  decide +kernel

theorem parse_blanks : parsePattern "\\s+" = some blanks := by decide +kernel

/-! ## Meaning -/

/-- `\w`: letters, digits and the underscore.  `alnum` is `str.isalnum` beyond ASCII. -/
def isWord (alnum : Char → Bool) (c : Char) : Bool :=
  if c.toNat < 128 then c.isAlphanum || c = '_' else alnum c

/-- The classes of a pattern that matches a `str`. -/
def reKinds (alnum : Char → Bool) : CharKinds where
  digit c := (decimal? c).isSome
  word := isWord alnum
  space := isSpace

/-- A rule as an expression. -/
abbrev matcher (alnum : Char → Bool) (rule : Pattern) : Regex := rule.expression (reKinds alnum)

/-- `pattern.sub(replacement, text)` of a rule. -/
def substitute (alnum : Char → Bool) (rule : Pattern × String) (text : List Char) : List Char :=
  (matcher alnum rule.1).sub rule.2.toList text

variable {Bytes : Type}

/-- `re` replaces what the patterns of the rules match, as the backtracking matcher does; `alnum`
    is its notion of a letter or digit beyond ASCII. -/
structure ReFaithful (py : Platform Bytes) (alnum : Char → Bool) : Prop where
  rules : ∀ pattern ∈ normalizations.map Prod.fst, ∀ rule, parsePattern pattern = some rule →
    ∀ replacement text, py.reSub pattern replacement text =
      String.ofList ((matcher alnum rule).sub replacement.toList text.toList)
  blanks : ∀ replacement text, py.reSub "\\s+" replacement text =
    String.ofList ((matcher alnum blanks).sub replacement.toList text.toList)

/-- `str.lower`: ASCII letters become small, and nothing beyond a space is looked at. -/
structure LowerFaithful (py : Platform Bytes) : Prop where
  ascii : ∀ text : String, (∀ c ∈ text.toList, c.toNat < 128) →
    py.lower text = String.ofList (text.toList.map Char.toLower)
  space : ∀ a b : String, py.lower (a ++ " " ++ b) = py.lower a ++ " " ++ py.lower b

end ArgoExporter.FailureTaxonomy
