import CommandPack.Text.Blank

/-!
Dates and points in time as YAML writes them.
-/

namespace CommandPack.Yaml

open Text

/-- A point in time: the calendar day and the time of day at its place, and the place's distance
from Greenwich in minutes. -/
structure Timestamp where
  year : Nat
  month : Nat
  day : Nat
  hour : Nat := 0
  minute : Nat := 0
  second : Nat := 0
  nanosecond : Nat := 0
  offset : Int := 0

namespace Timestamp

def isLeap (year : Nat) : Bool := year % 4 == 0 && (year % 100 != 0 || year % 400 == 0)

def daysIn (year month : Nat) : Nat :=
  if month = 2 then (if isLeap year then 29 else 28)
  else if month = 4 ∨ month = 6 ∨ month = 9 ∨ month = 11 then 30
  else 31

def digit (c : Char) : Nat := c.toNat - '0'.toNat

def readShort? (limit : Nat) : List Char → Option (Nat × List Char)
  | a :: b :: rest =>
    if ¬ a.isDigit then none
    else
      let (n, rest) := if b.isDigit then (10 * digit a + digit b, rest) else (digit a, b :: rest)
      if n < limit then some (n, rest) else none
  | [a] => if a.isDigit ∧ digit a < limit then some (digit a, []) else none
  | [] => none

def readPair? : List Char → Option (Nat × List Char)
  | a :: b :: rest => if a.isDigit ∧ b.isDigit then some (10 * digit a + digit b, rest) else none
  | _ => none

def readDate? (cs : List Char) : Option (Timestamp × List Char) := do
  let year := cs.takeWhile Char.isDigit
  guard (year.length = 4)
  let rest ← dropLead? ['-'] (cs.drop 4)
  let (month, rest) ← readShort? 13 rest
  let rest ← dropLead? ['-'] rest
  let (day, rest) ← readShort? 32 rest
  let year := year.foldl (fun n c => 10 * n + digit c) 0
  guard (1 ≤ month ∧ 1 ≤ day ∧ day ≤ daysIn year month)
  return ({ year, month, day }, rest)

/-- Billionths of a second after a point or a comma; more than nine digits are cut. -/
def readFraction (cs : List Char) : Nat × List Char :=
  match cs with
  | c :: rest =>
    let digits := rest.takeWhile Char.isDigit
    if (c = '.' ∨ c = ',') ∧ ¬ digits.isEmpty then
      let kept := (digits ++ List.replicate 9 '0').take 9
      (kept.foldl (fun n c => 10 * n + digit c) 0, rest.drop digits.length)
    else (0, cs)
  | [] => (0, cs)

def readClock? (t : Timestamp) (cs : List Char) : Option (Timestamp × List Char) := do
  let (hour, rest) ← readShort? 24 cs
  let rest ← dropLead? [':'] rest
  let (minute, rest) ← readShort? 60 rest
  let rest ← dropLead? [':'] rest
  let (second, rest) ← readShort? 60 rest
  let (nanosecond, rest) := readFraction rest
  return ({ t with hour, minute, second, nanosecond }, rest)

/-- The distance from Greenwich: `Z`, or hours and minutes with a sign. -/
def readOffset? : List Char → Option Int
  | ['Z'] => some 0
  | sign :: rest => do
    let (hours, rest) ← readPair? rest
    let rest ← dropLead? [':'] rest
    let (minutes, rest) ← readPair? rest
    guard (rest.isEmpty ∧ hours ≤ 24 ∧ minutes ≤ 60)
    let n : Int := 60 * hours + minutes
    if sign = '+' then some n else if sign = '-' then some (-n) else none
  | [] => none

/-- A day, a day and a time after blanks, or a day and a time with a distance after a `T`. -/
def read? (s : String) : Option Timestamp := do
  let (t, rest) ← readDate? s.toList
  match rest with
  | [] => return t
  | c :: rest =>
    if c = 'T' ∨ c = 't' then
      let (t, rest) ← readClock? t rest
      return { t with offset := ← readOffset? rest }
    else if c = ' ' then
      let (t, rest) ← readClock? t (rest.dropWhile (· == ' '))
      guard rest.isEmpty
      return t
    else none

def padded (width n : Nat) : String :=
  let digits := toString n
  String.ofList (List.replicate (width - digits.length) '0') ++ digits

def fractionText (t : Timestamp) : String :=
  if t.nanosecond = 0 then ""
  else
    let digits := (padded 9 t.nanosecond).toList
    "." ++ String.ofList (digits.reverse.dropWhile (· == '0')).reverse

def dateText (t : Timestamp) : String :=
  padded 4 t.year ++ "-" ++ padded 2 t.month ++ "-" ++ padded 2 t.day

def clockText (t : Timestamp) : String :=
  padded 2 t.hour ++ ":" ++ padded 2 t.minute ++ ":" ++ padded 2 t.second ++ t.fractionText

def offsetText (t : Timestamp) (sep : String) : String :=
  let n := t.offset.natAbs
  (if t.offset < 0 then "-" else "+") ++ padded 2 (n / 60) ++ sep ++ padded 2 (n % 60)

/-- The text for machines. A distance of a day or more has none. -/
def stamp? (t : Timestamp) : Option String :=
  if t.offset.natAbs < 24 * 60 then
    some (t.dateText ++ "T" ++ t.clockText ++ if t.offset = 0 then "Z" else t.offsetText ":")
  else none

def text (t : Timestamp) : String :=
  t.dateText ++ " " ++ t.clockText ++ " " ++ t.offsetText "" ++ " " ++
    if t.offset = 0 then "UTC" else t.offsetText ""

end Timestamp

end CommandPack.Yaml
