import CommandPack.Dict
import CommandPack.Text.Blank
import CommandPack.Text.Quoted
import CommandPack.Decimal.Layout

/-!
JSON values with a reader and a writer. Numbers keep their written form.
-/

namespace CommandPack

inductive Json where
  | null
  | bool (b : Bool)
  | number (numeral : String)
  | string (s : String)
  | array (items : List Json)
  | object (fields : List (String × Json))
deriving Inhabited

namespace Json

open Text

/-- Which characters a writer escapes beyond those that JSON requires. -/
structure Escaping where
  /-- Escape the characters that have a meaning in markup. -/
  markup : Bool

def Escaping.bare : Escaping := ⟨false⟩
def Escaping.markupSafe : Escaping := ⟨true⟩

def escapeChar (e : Escaping) (c : Char) : List Char :=
  if c = '"' ∨ c = '\\' then ['\\', c]
  else if c = '\n' then ['\\', 'n']
  else if c = '\r' then ['\\', 'r']
  else if c = '\t' then ['\\', 't']
  else if c.toNat < 0x20 ∨ c.toNat = 0x2028 ∨ c.toNat = 0x2029 ∨
      (e.markup ∧ (c = '<' ∨ c = '>' ∨ c = '&')) then
    '\\' :: 'u' :: hexPadded 4 c.toNat
  else [c]

def renderText (e : Escaping) (s : String) : String :=
  String.ofList ('"' :: s.toList.flatMap (escapeChar e) ++ ['"'])

mutual

def render (e : Escaping) : Json → String
  | null => "null"
  | bool b => if b then "true" else "false"
  | number numeral => numeral
  | string s => renderText e s
  | array items => "[" ++ join "," (renderItems e items) ++ "]"
  | object fields => "\x7b" ++ join "," (renderFields e fields) ++ "\x7d"

def renderItems (e : Escaping) : List Json → List String
  | [] => []
  | v :: vs => render e v :: renderItems e vs

def renderFields (e : Escaping) : List (String × Json) → List String
  | [] => []
  | (k, v) :: fs => (renderText e k ++ ":" ++ render e v) :: renderFields e fs

end

def newline (depth : Nat) : String :=
  "\n" ++ String.ofList (List.replicate (2 * depth) ' ')

mutual

/-- The value with one item or field a line, indented by two blanks a level. -/
def renderIndented (e : Escaping) (depth : Nat) : Json → String
  | array [] => "[]"
  | object [] => "\x7b\x7d"
  | array items =>
    "[" ++ newline (depth + 1) ++
      join ("," ++ newline (depth + 1)) (indentedItems e (depth + 1) items) ++
      newline depth ++ "]"
  | object fields =>
    "\x7b" ++ newline (depth + 1) ++
      join ("," ++ newline (depth + 1)) (indentedFields e (depth + 1) fields) ++
      newline depth ++ "\x7d"
  | null => "null"
  | bool b => if b then "true" else "false"
  | number numeral => numeral
  | string s => renderText e s

def indentedItems (e : Escaping) (depth : Nat) : List Json → List String
  | [] => []
  | v :: vs => renderIndented e depth v :: indentedItems e depth vs

def indentedFields (e : Escaping) (depth : Nat) : List (String × Json) → List String
  | [] => []
  | (k, v) :: fs =>
    (renderText e k ++ ": " ++ renderIndented e depth v) :: indentedFields e depth fs

end

def ofInt (n : Int) : Json := number (toString n)

def isGap (c : Char) : Bool := c == ' ' || c == '\t' || c == '\r' || c == '\n'

def skipGap (cs : List Char) : List Char := cs.dropWhile isGap

def readUnit? : List Char → Option (Nat × List Char)
  | '\\' :: 'u' :: cs => readDigits? 16 4 0 cs
  | _ => none

def pair? (hi lo : Nat) : Option Char :=
  if 0xd800 ≤ hi ∧ hi < 0xdc00 ∧ 0xdc00 ≤ lo ∧ lo < 0xe000 then
    some (Char.ofNat ((hi - 0xd800) * 0x400 + (lo - 0xdc00) + 0x10000))
  else none

/-- The inside of a text after its opening quote. A surrogate without its partner is read as the
replacement character. `fuel` bounds the number of characters. -/
def readText? : (fuel : Nat) → List Char → List Char → Option (String × List Char)
  | 0, _, _ => none
  | fuel + 1, acc, cs =>
    match cs with
    | [] => none
    | '"' :: rest => some (String.ofList acc.reverse, rest)
    | '\\' :: 'u' :: rest =>
      match readDigits? 16 4 0 rest with
      | none => none
      | some (v, rest) =>
        match readUnit? rest with
        | some (w, rest') =>
          match pair? v w with
          | some c => readText? fuel (c :: acc) rest'
          | none => readText? fuel ((if isScalar v then Char.ofNat v else '�') :: acc) rest
        | none => readText? fuel ((if isScalar v then Char.ofNat v else '�') :: acc) rest
    | '\\' :: c :: rest =>
      match c with
      | '"' | '\\' | '/' => readText? fuel (c :: acc) rest
      | 'b' => readText? fuel ('\x08' :: acc) rest
      | 'f' => readText? fuel ('\x0c' :: acc) rest
      | 'n' => readText? fuel ('\n' :: acc) rest
      | 'r' => readText? fuel ('\r' :: acc) rest
      | 't' => readText? fuel ('\t' :: acc) rest
      | _ => none
    | c :: rest => if c.toNat < 0x20 ∨ c = '\\' then none else readText? fuel (c :: acc) rest

def isDigit (c : Char) : Bool := '0' ≤ c && c ≤ '9'

def readDigitRun? (cs : List Char) : Option (List Char × List Char) :=
  match cs.takeWhile isDigit with
  | [] => none
  | ds => some (ds, cs.dropWhile isDigit)

def readWhole? : List Char → Option (List Char × List Char)
  | '0' :: cs => some (['0'], cs)
  | cs => readDigitRun? cs

def readFraction? : List Char → Option (List Char × List Char)
  | '.' :: cs => (readDigitRun? cs).map fun (ds, cs) => ('.' :: ds, cs)
  | cs => some ([], cs)

def readExponent? : List Char → Option (List Char × List Char)
  | e :: cs =>
    if e = 'e' ∨ e = 'E' then
      match cs with
      | '+' :: cs => (readDigitRun? cs).map fun (ds, cs) => (e :: '+' :: ds, cs)
      | '-' :: cs => (readDigitRun? cs).map fun (ds, cs) => (e :: '-' :: ds, cs)
      | cs => (readDigitRun? cs).map fun (ds, cs) => (e :: ds, cs)
    else some ([], e :: cs)
  | [] => some ([], [])

def readNumber? (cs : List Char) : Option (String × List Char) := do
  let (sign, cs) := match cs with
    | '-' :: cs => (['-'], cs)
    | cs => ([], cs)
  let (whole, cs) ← readWhole? cs
  let (fraction, cs) ← readFraction? cs
  let (exponent, cs) ← readExponent? cs
  some (String.ofList (sign ++ whole ++ fraction ++ exponent), cs)

mutual

/-- Reads a value at the front of the text. `fuel` bounds the number of steps; two per character
are enough. -/
def readValue? : (fuel : Nat) → List Char → Option (Json × List Char)
  | 0, _ => none
  | fuel + 1, cs =>
    match skipGap cs with
    | 'n' :: 'u' :: 'l' :: 'l' :: rest => some (null, rest)
    | 't' :: 'r' :: 'u' :: 'e' :: rest => some (bool true, rest)
    | 'f' :: 'a' :: 'l' :: 's' :: 'e' :: rest => some (bool false, rest)
    | '"' :: rest => (readText? (rest.length + 1) [] rest).map fun (s, rest) => (string s, rest)
    | '[' :: rest =>
      match skipGap rest with
      | ']' :: rest => some (array [], rest)
      | rest => readItems? fuel [] rest
    | '\x7b' :: rest =>
      match skipGap rest with
      | '\x7d' :: rest => some (object [], rest)
      | rest => readFields? fuel [] rest
    | cs => (readNumber? cs).map fun (n, rest) => (number n, rest)

def readItems? : (fuel : Nat) → List Json → List Char → Option (Json × List Char)
  | 0, _, _ => none
  | fuel + 1, items, cs =>
    match readValue? fuel cs with
    | none => none
    | some (v, rest) =>
      match skipGap rest with
      | ',' :: rest => readItems? fuel (v :: items) rest
      | ']' :: rest => some (array (v :: items).reverse, rest)
      | _ => none

def readFields? : (fuel : Nat) → Dict Json → List Char → Option (Json × List Char)
  | 0, _, _ => none
  | fuel + 1, fields, cs =>
    match skipGap cs with
    | '"' :: rest =>
      match readText? (rest.length + 1) [] rest with
      | none => none
      | some (k, rest) =>
        match skipGap rest with
        | ':' :: rest =>
          match readValue? fuel rest with
          | none => none
          | some (v, rest) =>
            let fields := Dict.insert k v fields
            match skipGap rest with
            | ',' :: rest => readFields? fuel fields rest
            | '\x7d' :: rest => some (object fields, rest)
            | _ => none
        | _ => none
    | _ => none

end

/-- Reads a text that is one value. Of fields with the same key the last one counts. -/
def read? (text : String) : Option Json :=
  match readValue? (2 * text.length + 2) text.toList with
  | some (v, rest) => if (skipGap rest).isEmpty then some v else none
  | none => none

def get? (k : String) : Json → Option Json
  | object fields => Dict.find? k fields
  | _ => none

def string? : Json → Option String
  | string s => some s
  | _ => none

end Json

end CommandPack
