import CommandPack.Decimal.Numeral
import CommandPack.Dict
import CommandPack.Text.Blank

/-!
Flags on a command line: `--name value`, `--name=value`, `-n value`, `-nvalue` and `-n=value`.
Flags that say yes or no need no value.
-/

namespace CommandPack.Cli

open Text

inductive FlagKind where
  | text | whole | yesNo
deriving DecidableEq

structure Flag where
  name : String
  kind : FlagKind
  usual : String
  letter : Option Char := none

def Flag.title (f : Flag) : String :=
  match f.letter with
  | some c => s!"-{c}, --{f.name}"
  | none => "--" ++ f.name

inductive ValueFault where
  | notBool | notInt | outOfRange

def ValueFault.message (value : String) : ValueFault → String
  | notBool => s!"strconv.ParseBool: parsing {quote value}: invalid syntax"
  | notInt => s!"strconv.ParseInt: parsing {quote value}: invalid syntax"
  | outOfRange => s!"strconv.ParseInt: parsing {quote value}: value out of range"

/-- What can be wrong with the flags of a command line. -/
inductive FlagFault where
  | malformed (arg : String)
  | unknown (name : String)
  | unknownLetter (letter : Char) (letters : String)
  | noValue (arg : String)
  | noLetterValue (letter : Char) (letters : String)
  | badValue (flag : Flag) (value : String) (why : ValueFault)

def FlagFault.message : FlagFault → String
  | malformed arg => "bad flag syntax: " ++ arg
  | unknown name => "unknown flag: --" ++ name
  | unknownLetter letter letters => s!"unknown shorthand flag: {quoteChar letter} in -{letters}"
  | noValue arg => "flag needs an argument: " ++ arg
  | noLetterValue letter letters => s!"flag needs an argument: {quoteChar letter} in -{letters}"
  | badValue flag value why =>
    s!"invalid argument {quote value} for {quote flag.title} flag: {why.message value}"

def readBool? (s : String) : Option Bool :=
  if s ∈ ["1", "t", "T", "TRUE", "true", "True"] then some true
  else if s ∈ ["0", "f", "F", "FALSE", "false", "False"] then some false
  else none

/-- A value in its usual form. -/
def Flag.check (f : Flag) (value : String) : Except ValueFault String :=
  match f.kind with
  | .text => .ok value
  | .yesNo =>
    match readBool? value with
    | some b => .ok (if b then "true" else "false")
    | none => .error .notBool
  | .whole =>
    match Decimal.readMarkedInt? 64 value with
    | some n => .ok (toString n)
    | none =>
      if (Decimal.readMarkedInt? (4 * value.length + 8) value).isSome then .error .outOfRange
      else .error .notInt

structure Parsed where
  given : Dict String := []
  args : List String := []

def Parsed.has (p : Parsed) (name : String) : Bool := Dict.has name p.given

def Parsed.set (p : Parsed) (f : Flag) (value : String) : Except FlagFault Parsed :=
  match f.check value with
  | .ok v => .ok { p with given := Dict.insert f.name v p.given }
  | .error why => .error (.badValue f value why)

def firstByte (c : Char) : Char :=
  match c.toString.toUTF8.toList with
  | b :: _ => Char.ofNat b.toNat
  | [] => c

/-- The flags of letters written together. The last may take its value from the next word; tells
whether it did. -/
def parseLetters (flags : List Flag) (next : Option String) : Parsed → List Char →
    Except FlagFault (Parsed × Bool)
  | p, [] => .ok (p, false)
  | p, c :: rest =>
    let letters := String.ofList (c :: rest)
    match flags.find? (·.letter == some c) with
    | none => .error (.unknownLetter (firstByte c) letters)
    | some f =>
      match rest with
      | '=' :: v :: value => do return (← p.set f (String.ofList (v :: value)), false)
      | _ =>
        if f.kind = .yesNo then do parseLetters flags next (← p.set f "true") rest
        else if ¬ rest.isEmpty then do return (← p.set f (String.ofList rest), false)
        else match next with
          | some value => do return (← p.set f value, true)
          | none => .error (.noLetterValue c letters)

/-- A flag with its name in full; tells whether it took the next word. -/
def parseLong (flags : List Flag) (next : Option String) (p : Parsed) (arg : String) :
    Except FlagFault (Parsed × Bool) :=
  let body := stripLead "--" arg
  if hasLead "-" body ∨ hasLead "=" body then .error (.malformed arg)
  else
    let (name, value) := match cut? '=' body with
      | some (name, value) => (name, some value)
      | none => (body, none)
    match flags.find? (·.name == name), value with
    | none, _ => .error (.unknown name)
    | some f, some value => do return (← p.set f value, false)
    | some f, none =>
      if f.kind = .yesNo then do return (← p.set f "true", false)
      else match next with
        | some value => do return (← p.set f value, true)
        | none => .error (.noValue arg)

/-- Reads the words of a command line. After `--` there are no more flags. `taken` tells that the
first word is already used. -/
def parseFrom (flags : List Flag) : (taken : Bool) → Parsed → List String → Except FlagFault Parsed
  | _, p, [] => .ok p
  | true, p, _ :: rest => parseFrom flags false p rest
  | false, p, arg :: rest =>
    if arg = "--" then .ok { p with args := p.args ++ rest }
    else if arg = "-" ∨ ¬ hasLead "-" arg then
      parseFrom flags false { p with args := p.args ++ [arg] } rest
    else do
      let (p, taken) ←
        if hasLead "--" arg then parseLong flags rest.head? p arg
        else parseLetters flags rest.head? p (stripLead "-" arg).toList
      parseFrom flags taken p rest

def parse (flags : List Flag) (args : List String) : Except FlagFault Parsed :=
  parseFrom flags false {} args

end CommandPack.Cli
