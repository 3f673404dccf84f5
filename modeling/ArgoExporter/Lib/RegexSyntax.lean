/-
  ArgoExporter.Lib.RegexSyntax

  Reading a pattern: the part of the syntax of Python's `re` with character
  classes, groups that capture nothing, greedy repetition, alternatives, `\b`,
  a look ahead, and a look behind for a single character.
-/

import ArgoExporter.Lib.FixedWidth
import ArgoExporter.Lib.Regex

namespace ArgoExporter.Lib.Regex

/-! ## Character classes -/

/-- What `\d`, `\w` and `\s` stand for. -/
structure CharKinds where
  digit : Char → Bool
  word : Char → Bool
  space : Char → Bool

inductive ClassItem where
  | single (c : Char)
  | range (first last : Char)
  | digit
  | word
  | space
  deriving DecidableEq

/-- A pattern that has been read. -/
inductive Pattern where
  | items (negated : Bool) (items : List ClassItem)
  | seq (r t : Pattern)
  | alt (r t : Pattern)
  | rep (r : Pattern) (min : Nat) (max : Option Nat)
  | boundary
  | notBehind (items : List ClassItem)
  | ahead (r : Pattern)
  deriving DecidableEq

/-! ## Meaning -/

variable (kinds : CharKinds)

def ClassItem.has : ClassItem → Char → Bool
  | .single x => fun c => c = x
  | .range first last => fun c => first ≤ c ∧ c ≤ last
  | .digit => kinds.digit
  | .word => kinds.word
  | .space => kinds.space

/-- `[items]`. -/
def oneOf (items : List ClassItem) : Regex := set fun c => items.any fun item => item.has kinds c

/-- `[^items]`. -/
def noneOf (items : List ClassItem) : Regex := set fun c => !items.any fun item => item.has kinds c

/-- The expression a pattern stands for. -/
def Pattern.expression : Pattern → Regex
  | .items negated chars => if negated then noneOf kinds chars else oneOf kinds chars
  | .seq r t => r.expression.seq t.expression
  | .alt r t => r.expression.alt t.expression
  | .rep r min max => r.expression.rep min max
  | .boundary => Regex.boundary kinds.word
  | .notBehind chars => Regex.notBehind fun c => chars.any fun item => item.has kinds c
  | .ahead r => r.expression.ahead

/-! ## Parsing -/

/-- An escaped character, in a class or outside. -/
def escape (c : Char) : ClassItem :=
  if c = 'd' then .digit else if c = 'w' then .word else if c = 's' then .space else .single c

/-- The items of a class up to its closing bracket. -/
def parseItems : Nat → List Char → Option (List ClassItem × List Char)
  | 0, _ => none
  | _ + 1, ']' :: rest => some ([], rest)
  | n + 1, '\\' :: c :: rest => do
      let (items, rest) ← parseItems n rest
      return (escape c :: items, rest)
  | n + 1, a :: '-' :: b :: rest =>
      -- a hyphen before the closing bracket stands for itself
      if b = ']' then some ([.single a, .single '-'], rest)
      else do
        let (items, rest) ← parseItems n rest
        return (.range a b :: items, rest)
  | n + 1, c :: rest => do
      let (items, rest) ← parseItems n rest
      return (.single c :: items, rest)
  | _ + 1, [] => none

/-- A class after its opening bracket: whether it is negated, and its items. -/
def parseClass : List Char → Option (Bool × List ClassItem × List Char)
  | '^' :: rest => (parseItems rest.length rest).map fun r => (true, r.1, r.2)
  | rest => (parseItems rest.length rest).map fun r => (false, r.1, r.2)

/-- The digits at the start of a text, as a number. -/
def parseNumber (s : List Char) : Option (Nat × List Char) :=
  let digits := s.takeWhile fun c => (digitVal? c).isSome
  if digits = [] then none else (ofDigits? digits).map fun n => (n, s.drop digits.length)

/-- The quantifier that follows a pattern, if one does. -/
def parseQuantifier (r : Pattern) : List Char → Option (Pattern × List Char)
  | '*' :: rest => some (.rep r 0 none, rest)
  | '+' :: rest => some (.rep r 1 none, rest)
  | '?' :: rest => some (.rep r 0 (some 1), rest)
  | '\x7b' :: rest => do
      let (min, rest) ← parseNumber rest
      match rest with
      | '\x7d' :: rest => return (.rep r min (some min), rest)
      | ',' :: '\x7d' :: rest => return (.rep r min none, rest)
      | ',' :: rest =>
          let (max, rest) ← parseNumber rest
          match rest with
          | '\x7d' :: rest => return (.rep r min (some max), rest)
          | _ => none
      | _ => none
  | rest => some (r, rest)

mutual

/-- Alternatives, up to a closing parenthesis or the end. -/
def parseAlternatives : Nat → List Char → Option (Pattern × List Char)
  | 0, _ => none
  | n + 1, s => do
      let (r, rest) ← parseSequence n s
      match rest with
      | '|' :: rest =>
          let (t, rest) ← parseAlternatives n rest
          return (.alt r t, rest)
      | _ => return (r, rest)

/-- One alternative. -/
def parseSequence : Nat → List Char → Option (Pattern × List Char)
  | 0, _ => none
  | n + 1, s => do
      let (r, rest) ← parseAtom n s
      match rest with
      | [] => return (r, rest)
      | '|' :: _ => return (r, rest)
      | ')' :: _ => return (r, rest)
      | _ =>
          let (t, rest) ← parseSequence n rest
          return (.seq r t, rest)

/-- One character, class, assertion or group, with its quantifier. -/
def parseAtom : Nat → List Char → Option (Pattern × List Char)
  | 0, _ => none
  | _ + 1, '\\' :: 'b' :: rest => some (.boundary, rest)
  | _ + 1, '\\' :: c :: rest => parseQuantifier (.items false [escape c]) rest
  | n + 1, '(' :: '?' :: ':' :: rest => do
      let (r, rest) ← parseAlternatives n rest
      match rest with
      | ')' :: rest => parseQuantifier r rest
      | _ => none
  | n + 1, '(' :: '?' :: '=' :: rest => do
      let (r, rest) ← parseAlternatives n rest
      match rest with
      | ')' :: rest => return (.ahead r, rest)
      | _ => none
  | _ + 1, '(' :: '?' :: '<' :: '!' :: '[' :: rest => do
      let (negated, items, rest) ← parseClass rest
      match negated, rest with
      | false, ')' :: rest => return (.notBehind items, rest)
      | _, _ => none
  | _ + 1, '[' :: rest => do
      let (negated, items, rest) ← parseClass rest
      parseQuantifier (.items negated items) rest
  | _ + 1, c :: rest => parseQuantifier (.items false [.single c]) rest
  | _ + 1, [] => none

end

/-- Read a pattern; `none` for one outside this syntax. -/
def parsePattern (pattern : String) : Option Pattern :=
  match parseAlternatives (3 * pattern.toList.length + 3) pattern.toList with
  | some (r, []) => some r
  | _ => none

end ArgoExporter.Lib.Regex
