/-
  ArgoExporter.Py.Datetime

  `datetime` as the exporter uses it: naive datetimes with microsecond
  resolution between the years 1 and 9999, an optional UTC offset, conversion
  to UTC, and the texts `strftime`, `isoformat`, `strptime` and
  `fromisoformat` write and read.

  Instants are counted in microseconds from 0001-01-01T00:00:00.
-/

import ArgoExporter.Lib.Calendar
import ArgoExporter.Py.Exc
import ArgoExporter.Py.Text

namespace ArgoExporter.Py

open ArgoExporter.Lib

/-! ## Values -/

def microsPerSecond : Nat := 1000000
def secondsPerDay : Nat := 86400
def microsPerDay : Nat := 86400000000

/-- Microseconds from 0001-01-01 to the end of year 9999. -/
def maxMicros : Nat := 3652059 * microsPerDay

/-- A datetime without its time zone. -/
@[ext]
structure Naive where
  micros : Nat
  inRange : micros < maxMicros
  deriving DecidableEq

/-- A datetime; `utcoffset` is in microseconds and absent on a zone-less one. -/
structure DateTime where
  naive : Naive
  utcoffset : Option Int
  deriving DecidableEq

namespace Naive

def date (n : Naive) : Date := Date.ofDays (n.micros / microsPerDay)

/-- Microseconds since midnight. -/
def timeOfDay (n : Naive) : Nat := n.micros % microsPerDay

def hour (n : Naive) : Nat := n.timeOfDay / 3600000000
def minute (n : Naive) : Nat := n.timeOfDay / 60000000 % 60
def second (n : Naive) : Nat := n.timeOfDay / microsPerSecond % 60
def microsecond (n : Naive) : Nat := n.timeOfDay % microsPerSecond

/-- The datetime a count of microseconds stands for, if the years 1 to 9999 contain it. -/
def ofMicros? (z : Int) : Option Naive :=
  if h : 0 ≤ z ∧ z < maxMicros then some ⟨z.toNat, by omega⟩ else none

/-- `datetime(y, m, d, hour, minute, second, microsecond)`, with `none` for the `ValueError`. -/
def ofFields? (y m d hour minute second microsecond : Nat) : Option Naive := do
  let date ← Date.mk? y m d
  if hour < 24 ∧ minute < 60 ∧ second < 60 ∧ microsecond < microsPerSecond then
    ofMicros? (date.toDays * microsPerDay +
      (((hour * 60 + minute) * 60 + second) * microsPerSecond + microsecond) : Nat)
  else none

end Naive

/-- `datetime.max`. -/
def Naive.max : Naive := ⟨maxMicros - 1, by decide⟩

/-- `value.astimezone(timezone.utc)` of a datetime with offset `offset`. -/
def astimezoneUtc (naive : Naive) (offset : Int) : Except Exc Naive :=
  match Naive.ofMicros? (naive.micros - offset) with
  | some utc => .ok utc
  | none => raise .overflowError "date value out of range"

/-! ## Writing -/

def hms (n : Naive) : List Char :=
  pad 2 n.hour ++ ':' :: pad 2 n.minute ++ ':' :: pad 2 n.second

def monthDay (n : Naive) : List Char := '-' :: pad 2 n.date.month ++ '-' :: pad 2 n.date.day

/-- `%Y` of glibc, which does not pad years below 1000. -/
def yearText (y : Nat) : List Char := (pad 4 y).dropWhile fun c => c = '0'

/-- `value.strftime("%Y-%m-%dT%H:%M:%SZ")`. -/
def strftime (n : Naive) : String :=
  String.ofList (yearText n.date.year ++ (monthDay n ++ 'T' :: hms n ++ ['Z']))

/-- `value.isoformat()` of a UTC datetime with its `+00:00` written as `Z`. -/
def isoformatZ (n : Naive) : String :=
  String.ofList (pad 4 n.date.year ++ monthDay n ++ 'T' :: hms n ++
    (if n.microsecond = 0 then [] else '.' :: pad 6 n.microsecond) ++ ['Z'])

/-! ## Reading `%Y-%m-%dT%H:%M:%SZ` -/

/-- The text before the first character satisfying `p`, and the text after it. -/
def cut (p : Char → Bool) : List Char → Option (List Char × List Char)
  | [] => none
  | c :: cs => if p c then some ([], cs) else (cut p cs).map fun r => (c :: r.1, r.2)

/-- `%Y`: four decimal digits. -/
def yearField : List Char → Option Nat
  | [a, b, c, d] => do
      return (((← decimal? a) * 10 + (← decimal? b)) * 10 + (← decimal? c)) * 10 + (← decimal? d)
  | _ => none

/-- `%m`: `1[0-2]|0[1-9]|[1-9]`. -/
def monthField : List Char → Option Nat
  | [a, b] => do
      let t ← digitVal? a
      let u ← digitVal? b
      if t = 1 ∧ u ≤ 2 ∨ t = 0 ∧ 1 ≤ u then some (10 * t + u) else none
  | [b] => do
      let u ← digitVal? b
      if 1 ≤ u then some u else none
  | _ => none

/-- `%d`: `3[0-1]|[1-2]\d|0[1-9]|[1-9]| [1-9]`. -/
def dayField : List Char → Option Nat
  | [a, b] =>
      if a = ' ' then do
        let u ← digitVal? b
        if 1 ≤ u then some u else none
      else do
        let t ← digitVal? a
        if t = 1 ∨ t = 2 then (decimal? b).map fun u => 10 * t + u
        else
          let u ← digitVal? b
          if t = 3 ∧ u ≤ 1 ∨ t = 0 ∧ 1 ≤ u then some (10 * t + u) else none
  | [b] => do
      let u ← digitVal? b
      if 1 ≤ u then some u else none
  | _ => none

/-- `%H`: `2[0-3]|[0-1]\d|\d`. -/
def hourField : List Char → Option Nat
  | [a, b] => do
      let t ← digitVal? a
      if t = 0 ∨ t = 1 then (decimal? b).map fun u => 10 * t + u
      else
        let u ← digitVal? b
        if t = 2 ∧ u ≤ 3 then some (10 * t + u) else none
  | [b] => decimal? b
  | _ => none

/-- `%M`: `[0-5]\d|\d`. -/
def minuteField : List Char → Option Nat
  | [a, b] => do
      let t ← digitVal? a
      if t ≤ 5 then (decimal? b).map fun u => 10 * t + u else none
  | [b] => decimal? b
  | _ => none

/-- `%S`: `6[0-1]|[0-5]\d|\d`. -/
def secondField : List Char → Option Nat
  | [a, b] => do
      let t ← digitVal? a
      if t ≤ 5 then (decimal? b).map fun u => 10 * t + u
      else
        let u ← digitVal? b
        if t = 6 ∧ u ≤ 1 then some (10 * t + u) else none
  | [b] => decimal? b
  | _ => none

/-- The six texts between the separators; the letters match in either case. -/
def stampFields (cs : List Char) :
    Option (List Char × List Char × List Char × List Char × List Char × List Char) := do
  let (year, rest) ← cut (fun c => c = '-') cs
  let (month, rest) ← cut (fun c => c = '-') rest
  let (day, rest) ← cut (fun c => c = 'T' ∨ c = 't') rest
  let (hour, rest) ← cut (fun c => c = ':') rest
  let (minute, rest) ← cut (fun c => c = ':') rest
  let (second, rest) ← cut (fun c => c = 'Z' ∨ c = 'z') rest
  if rest.isEmpty then some (year, month, day, hour, minute, second) else none

/-- `datetime.strptime(text, "%Y-%m-%dT%H:%M:%SZ")`, with `none` for the `ValueError`. -/
def strptime (text : String) : Option Naive := do
  let (year, month, day, hour, minute, second) ← stampFields text.toList
  Naive.ofFields? (← yearField year) (← monthField month) (← dayField day)
    (← hourField hour) (← minuteField minute) (← secondField second) 0

/-! ## Reading ISO 8601 -/

/-- The character a C pointer sees; the end of the text is a NUL. -/
def peek (p : List Char) : Char := p.headD '\x00'

/-- Exactly `n` ASCII digits. -/
def parseDigits (n : Nat) (p : List Char) : Option (Nat × List Char) :=
  if p.length < n then none else (ofDigits? (p.take n)).map fun v => (v, p.drop n)

/-- Position of the separator between date and time. -/
def findIsoformatSeparator (p : List Char) : Option Nat :=
  let len := p.length
  let digitAt (i : Nat) : Bool := (digitVal? (peek (p.drop i))).isSome
  if len = 7 then some 7
  else if peek (p.drop 4) = '-' then
    if peek (p.drop 5) = 'W' then
      if len < 8 then none
      else if len > 8 ∧ peek (p.drop 8) = '-' then
        if len = 9 then none
        else if len > 10 ∧ digitAt 10 then some 8
        else some 10
      else some 8
    else some 10
  else if peek (p.drop 4) = 'W' then
    let pos := 7 + ((p.drop 7).takeWhile fun c => (digitVal? c).isSome).length
    if pos < 9 then some pos
    else if pos % 2 = 0 then some 7
    else some 8
  else some 8

/-- The first Monday of ISO year `y`, in days from 0001-01-01 (year 1 starts on a Monday). -/
def isoWeek1Monday (y : Nat) : Int :=
  let first : Int := daysBeforeYear y
  let weekday : Int := first % 7
  if weekday > 3 then first - weekday + 7 else first - weekday

/-- Year, month and day of an ISO week date. -/
def isoWeekDate (year week day : Nat) : Option (Nat × Nat × Nat) :=
  let firstWeekday := daysBeforeYear year % 7
  let longYear := firstWeekday = 3 ∨ firstWeekday = 2 ∧ isLeap year
  if year = 0 ∨ week = 0 ∨ 53 < week ∨ week = 53 ∧ ¬ longYear then none
  else if day = 0 ∨ 7 < day then none
  else
    let n := isoWeek1Monday year + ((week - 1) * 7 + (day - 1) : Nat)
    if n < 0 then none
    else
      let date := Date.ofDays n.toNat
      some (date.year, date.month, date.day)

/-- The date part: `YYYY-MM-DD`, `YYYYMMDD`, `YYYY-Www[-D]` or `YYYYWww[D]`, of length `len`. -/
def parseIsoformatDate (p : List Char) (len : Nat) : Option (Nat × Nat × Nat) := do
  let consumed (q : List Char) : Nat := p.length - q.length
  let (year, q) ← parseDigits 4 p
  let sep := peek q = '-'
  let q := if sep then q.drop 1 else q
  if peek q = 'W' then
    let (week, q) ← parseDigits 2 (q.drop 1)
    if consumed q < len then
      if sep ∧ peek q ≠ '-' then none
      else
        let (day, _) ← parseDigits 1 (if sep then q.drop 1 else q)
        isoWeekDate year week day
    else isoWeekDate year week 1
  else
    let (month, q) ← parseDigits 2 q
    if sep ∧ peek q ≠ '-' then none
    else
      let (day, q) ← parseDigits 2 (if sep then q.drop 1 else q)
      if consumed q = len then some (year, month, day) else none

/-- Hour, minute, second and microsecond of a clock text. -/
structure ClockFields where
  hour : Nat := 0
  minute : Nat := 0
  second : Nat := 0
  microsecond : Nat := 0
  deriving DecidableEq

/-- The fraction of a clock text that ends `tail` characters before the end of the text.  The flag
    says that characters are left over. -/
def parseFraction (f : ClockFields) (p : List Char) (tail : Nat) : Option (ClockFields × Bool) := do
  let toParse := min (p.length - tail) 6
  let (v, q) ← parseDigits toParse p
  let q := q.dropWhile fun c => (digitVal? c).isSome
  return ({ f with microsecond := v * 10 ^ (6 - toParse) }, peek q ≠ '\x00')

/-- The fields still to read of a clock text, each put in its place. -/
def parseClockFields (hasSep : Bool) (f : ClockFields) (p : List Char) (tail : Nat) :
    List (ClockFields → Nat → ClockFields) → Option (ClockFields × Bool)
  | [] => parseFraction f p tail
  | put :: puts => do
      let (v, q) ← parseDigits 2 p
      let f := put f v
      let c := peek q
      let next := q.drop 1
      if q.length ≤ tail ∨ next.length ≤ tail then return (f, c ≠ '\x00')
      else if hasSep ∧ c = ':' then parseClockFields hasSep f next tail puts
      else if c = '.' ∨ c = ',' then parseFraction f next tail
      else if ¬ hasSep then parseClockFields hasSep f q tail puts
      else none

/-- `HH[:?MM[:?SS[.fff]]]`, ending `tail` characters before the end of the text. -/
def parseHhMmSsFf (p : List Char) (tail : Nat) : Option (ClockFields × Bool) :=
  parseClockFields (peek (p.drop 2) = ':') {} p tail
    [fun f v => { f with hour := v }, fun f v => { f with minute := v },
     fun f v => { f with second := v }]

/-- The time part with its UTC offset in microseconds. -/
def parseIsoformatTime (p : List Char) : Option (ClockFields × Option Int) := do
  -- the C loop steps over the first character before it looks for the end of the text
  let zone := p.dropWhile fun c => ¬ (c = '+' ∨ c = '-' ∨ c = 'Z')
  let (f, junk) ← parseHhMmSsFf p zone.length
  match zone with
  | [] => if junk then none else return (f, none)
  | 'Z' :: rest => if peek rest ≠ '\x00' then none else return (f, some 0)
  | sign :: rest =>
      let (z, junk) ← parseHhMmSsFf rest 0
      let seconds := (z.hour * 60 + z.minute) * 60 + z.second
      let micros : Int := seconds * microsPerSecond + z.microsecond
      if junk then none
      -- an offset of no whole second is UTC whatever its fraction
      else if seconds = 0 then return (f, some 0)
      else if 86400 * 1000000 ≤ micros then none
      else return (f, some (if sign = '-' then -micros else micros))

/-- `datetime.fromisoformat(text)`, with `none` for the `ValueError`.  The parser works on UTF-8
    bytes; a character outside ASCII stands for as many non-digit bytes as it is long. -/
def fromisoformat (text : String) : Option DateTime := do
  let p := text.toList.flatMap fun c => List.replicate c.utf8Size c
  if p.length < 7 then none
  else
    let at_ ← findIsoformatSeparator p
    let (year, month, day) ← parseIsoformatDate p at_
    if p.length ≤ at_ then
      return ⟨← Naive.ofFields? year month day 0 0 0 0, none⟩
    else
      let rest := p.drop at_
      let (f, offset) ← parseIsoformatTime (rest.drop (peek rest).utf8Size)
      return ⟨← Naive.ofFields? year month day f.hour f.minute f.second f.microsecond, offset⟩

end ArgoExporter.Py
