import CommandPack.Decimal.Numeral
import CommandPack.Yaml.Timestamp

/-!
What plain scalars mean: nothing, truth values, numbers, points in time, or just their text.
-/

namespace CommandPack.Yaml

open Text Decimal

inductive Meaning where
  | null
  | bool (b : Bool)
  | int (n : Int)
  | float (x : Float)
  | time (t : Timestamp)
  | text

namespace Meaning

def tag : Meaning → String
  | null => "!!null"
  | bool _ => "!!bool"
  | int _ => "!!int"
  | float _ => "!!float"
  | time _ => "!!timestamp"
  | text => "!!str"

def ofWord? (s : String) : Option Meaning :=
  if s ∈ ["true", "True", "TRUE"] then some (bool true)
  else if s ∈ ["false", "False", "FALSE"] then some (bool false)
  else if s ∈ ["", "~", "null", "Null", "NULL"] then some null
  else if s ∈ [".nan", ".NaN", ".NAN"] then (readDouble? "nan").map float
  else if s ∈ [".inf", ".Inf", ".INF", "+.inf", "+.Inf", "+.INF"] then (readDouble? "inf").map float
  else if s ∈ ["-.inf", "-.Inf", "-.INF"] then (readDouble? "-inf").map float
  else none

def isExponent : List Char → Bool
  | [] => true
  | c :: rest =>
    let digits := (splitSign rest).2
    (c == 'e' || c == 'E') && !digits.isEmpty && digits.all Char.isDigit

def isFloat (s : String) : Bool :=
  let body := (splitSign s.toList).2
  let whole := body.takeWhile Char.isDigit
  match body.dropWhile Char.isDigit with
  | '.' :: rest =>
    let digits := rest.takeWhile Char.isDigit
    !(whole.isEmpty && digits.isEmpty) && isExponent (rest.dropWhile Char.isDigit)
  | rest => !whole.isEmpty && isExponent rest

/-- An integer in the base that its first characters tell. It may need 64 bits without a sign. -/
def readInteger? (s : String) : Option Int :=
  match readMarkedInt? 64 s with
  | some n => some n
  | none => if s.toList.head?.any Char.isDigit then readMarkedInt? 65 s else none

def readSignedAfter? (mark : String) (base : Nat) (s : String) : Option Int := do
  let rest ← dropLead? mark.toList s.toList
  let (negative, digits) := splitSign rest
  signedWithin? 64 negative (← natOfDigits? base digits)

/-- A number. Underscores do not count. -/
def ofNumber? (s : String) : Option Meaning :=
  let plain := String.ofList (s.toList.filter (· != '_'))
  match readInteger? plain with
  | some n => some (int n)
  | none =>
    match if isFloat plain then readDouble? plain else none with
    | some x => some (float x)
    | none => (readSignedAfter? "0b" 2 plain <|> readSignedAfter? "0o" 8 plain).map int

/-- The meaning of a text. Points in time are only looked for if `times` says so. -/
def ofText (times : Bool) (s : String) : Meaning :=
  match ofWord? s with
  | some m => m
  | none =>
    match s.toList with
    | '.' :: _ => ((readDouble? s).map float).getD text
    | c :: _ =>
      if c.isDigit ∨ c = '-' ∨ c = '+' then
        match if times then Timestamp.read? s else none with
        | some t => time t
        | none => (ofNumber? s).getD text
      else text
    | [] => text

end Meaning

end CommandPack.Yaml
