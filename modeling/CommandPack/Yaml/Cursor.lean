/-!
Reading YAML text character by character, with the place of each.
-/

namespace CommandPack.Yaml

inductive Fault where
  | controlCharacter
  | unexpectedIndicator
  | unexpectedEnd
  | unknownEscape
  | badEscape
  | badCharacter
  | zeroIndentation
  | blockHeader
  | tab
  | anchorName
  | tagUri
  | tagEnd
  | directive
  | cannotStart
  | tooDeep
  | missingColon
  | entryNotAllowed
  | keyNotAllowed
  | valueNotAllowed
  | missingDocumentStart
  | repeatedDirective
  | version
  | unknownHandle
  | unknownAnchor
  | noContent
  | expectedKey
  | expectedEntry
  | expectedComma
  | tagMismatch
  | repeatedKey
  | badKey
  | badMerge
  | badBase64
  | selfContained

def Fault.message : Fault → String
  | controlCharacter => "control characters are not allowed"
  | unexpectedIndicator => "found unexpected document indicator"
  | unexpectedEnd => "found unexpected end of stream"
  | unknownEscape => "found unknown escape character"
  | badEscape => "did not find expected hexadecimal number"
  | badCharacter => "found invalid character code"
  | zeroIndentation => "found an indentation indicator equal to 0"
  | blockHeader => "did not find expected comment or line break"
  | tab => "found a tab character that violates indentation"
  | anchorName => "did not find expected alphabetic or numeric character"
  | tagUri => "did not find expected tag URI"
  | tagEnd => "did not find expected whitespace or line break"
  | directive => "found an invalid directive"
  | cannotStart => "found character that cannot start any token"
  | tooDeep => "exceeded max depth"
  | missingColon => "could not find expected ':'"
  | entryNotAllowed => "block sequence entries are not allowed in this context"
  | keyNotAllowed => "mapping keys are not allowed in this context"
  | valueNotAllowed => "mapping values are not allowed in this context"
  | missingDocumentStart => "did not find expected <document start>"
  | repeatedDirective => "found a repeated directive"
  | version => "found incompatible YAML document"
  | unknownHandle => "found undefined tag handle"
  | unknownAnchor => "unknown anchor referenced"
  | noContent => "did not find expected node content"
  | expectedKey => "did not find expected key"
  | expectedEntry => "did not find expected '-' indicator"
  | expectedComma => "did not find expected ',' or closing bracket"
  | tagMismatch => "cannot decode a value as its tag says"
  | repeatedKey => "mapping key already defined"
  | badKey => "invalid map key"
  | badMerge => "map merge requires map or sequence of maps as the value"
  | badBase64 => "!!binary value contains invalid base64 data"
  | selfContained => "anchor value contains itself"

/-- A place in the text. All numbers count from 0. -/
structure Mark where
  index : Nat := 0
  line : Nat := 0
  column : Nat := 0
deriving Inhabited

def isBlank (c : Char) : Bool := c == ' ' || c == '\t'

def isBreak (c : Char) : Bool :=
  c == '\n' || c == '\r' || c.toNat == 0x85 || c.toNat == 0x2028 || c.toNat == 0x2029

def isWordChar (c : Char) : Bool := c.isAlphanum || c == '_' || c == '-'

/-- The rest of the text, where it begins, and how many line breaks were passed since the last
character that is not blank. -/
structure Cursor where
  rest : List Char
  mark : Mark := {}
  newlines : Nat := 0
deriving Inhabited

namespace Cursor

def ahead? (c : Cursor) (n : Nat) : Option Char := c.rest[n]?

def sees (c : Cursor) (ch : Char) : Bool := c.rest.head? == some ch

def atEnd (c : Cursor) : Bool := c.rest.isEmpty

def seesBlank (c : Cursor) : Bool := c.rest.head?.any isBlank

def seesBreak (c : Cursor) : Bool := c.rest.head?.any isBreak

def gapAt (c : Cursor) (n : Nat) : Bool := (c.ahead? n).all fun ch => isBlank ch || isBreak ch

def endsLine (c : Cursor) : Bool := c.rest.head?.all isBreak

def skip (c : Cursor) : Cursor :=
  match c.rest with
  | [] => c
  | ch :: rest =>
    { rest
      mark := { c.mark with index := c.mark.index + 1, column := c.mark.column + 1 }
      newlines := if isBlank ch then c.newlines else 0 }

def skipN : Nat → Cursor → Cursor
  | 0, c => c
  | n + 1, c => skipN n c.skip

/-- Passes a line break; its text is a plain newline unless it is a Unicode separator. -/
def readLine (c : Cursor) : String × Cursor :=
  let after (n : Nat) (rest : List Char) : Cursor :=
    { rest, mark := ⟨c.mark.index + n, c.mark.line + 1, 0⟩, newlines := c.newlines + 1 }
  match c.rest with
  | '\r' :: '\n' :: rest => ("\n", after 2 rest)
  | ch :: rest =>
    if ch.toNat == 0x2028 || ch.toNat == 0x2029 then (ch.toString, after 1 rest)
    else if isBreak ch then ("\n", after 1 rest)
    else ("", c)
  | [] => ("", c)

def skipLine (c : Cursor) : Cursor := c.readLine.2

def skipWhile (p : Char → Bool) (c : Cursor) : Cursor := skipN (c.rest.takeWhile p).length c

def readWhile (p : Char → Bool) (c : Cursor) : String × Cursor :=
  (String.ofList (c.rest.takeWhile p), c.skipWhile p)

/-- Is a `---` or `...` next that stands alone at the beginning of a line? -/
def atIndicator (c : Cursor) : Bool :=
  c.mark.column == 0 && (c.rest.take 3 == ['-', '-', '-'] || c.rest.take 3 == ['.', '.', '.']) &&
    c.gapAt 3

def advance (stop : Nat) : (fuel : Nat) → Cursor → Cursor
  | 0, c => c
  | fuel + 1, c =>
    if stop ≤ c.mark.index then c
    else advance stop fuel (if c.seesBreak then c.skipLine else c.skip)

def skipComment (c : Cursor) : Cursor := c.skipWhile (!isBreak ·)

def commentWindow : Nat := 512

def skipLineComment (c : Cursor) : Cursor :=
  if 0 < c.newlines then c
  else
    let blanks := c.rest.takeWhile isBlank
    if blanks.length < commentWindow ∧ c.ahead? blanks.length = some '#' then c.skipComment else c

/-- Passes a comment and those after it with nothing but blanks and line breaks between. -/
def skipComments : (fuel : Nat) → Cursor → Cursor
  | 0, c => c
  | fuel + 1, c =>
    let c := c.skipComment
    match c.rest with
    | '\n' :: more | '\r' :: more =>
      let gap := (more.takeWhile fun ch => ch == ' ' || ch == '\t' || ch == '\n' || ch == '\r').length
      if gap + 1 < commentWindow ∧ more[gap]? = some '#' then
        skipComments fuel (c.advance (c.mark.index + gap + 1) (gap + 1))
      else c
    | _ => c

end Cursor

end CommandPack.Yaml
