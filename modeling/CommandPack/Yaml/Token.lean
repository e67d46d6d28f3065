import CommandPack.Yaml.Scalar

/-!
The tokens of YAML, and how a text is cut into them.
-/

namespace CommandPack.Yaml

open Text

inductive Style where
  | plain | single | double | literal | folded
deriving DecidableEq, Inhabited

inductive TokenKind where
  | streamStart | streamEnd
  | version (major minor : Nat)
  | handle (handle replacement : String)
  | documentStart | documentEnd
  | blockSequence | blockMapping | blockEnd
  | openSequence | closeSequence | openMapping | closeMapping
  | blockEntry | flowEntry | key | value
  | ref (name : String)
  | anchor (name : String)
  | tag (handle suffix : String)
  | scalar (text : String) (style : Style)
deriving DecidableEq, Inhabited

structure Token where
  kind : TokenKind
  start : Mark
  stop : Mark
deriving Inhabited

/-- A place where a key may have begun. -/
structure SimpleKey where
  possible : Bool := false
  required : Bool := false
  index : Nat := 0
  mark : Mark := {}
deriving Inhabited

structure Scanner where
  cursor : Cursor
  tokens : Array Token := #[]
  flowLevel : Nat := 0
  indent : Int := -1
  indents : List Int := []
  simpleKey : SimpleKey := {}
  outerKeys : List SimpleKey := []
  keyAllowed : Bool := true
deriving Inhabited

namespace Scanner

def maxDepth : Nat := 10000

def mark (s : Scanner) : Mark := s.cursor.mark

def push (s : Scanner) (kind : TokenKind) (start stop : Mark) : Scanner :=
  { s with tokens := s.tokens.push ⟨kind, start, stop⟩ }

def insertAt (s : Scanner) (index : Nat) (kind : TokenKind) (mark : Mark) : Scanner :=
  let t : Token := ⟨kind, mark, mark⟩
  { s with tokens := s.tokens.insertIdxIfInBounds index t }

def pushChar (s : Scanner) (kind : TokenKind) : Scanner :=
  let next := s.cursor.skip
  { s.push kind s.mark next.mark with cursor := next }

def dropKey (s : Scanner) : Except Fault Scanner :=
  if s.simpleKey.possible ∧ s.simpleKey.required then .error .missingColon
  else .ok { s with simpleKey := { s.simpleKey with possible := false } }

def noteKey (s : Scanner) : Except Fault Scanner :=
  if s.keyAllowed then do
    let required := s.flowLevel == 0 && s.indent == s.mark.column
    let s ← s.dropKey
    return { s with simpleKey := ⟨true, required, s.tokens.size, s.mark⟩ }
  else .ok s

/-- Keys stand on one line and are not long. Gives whether there is one. -/
def checkKey (s : Scanner) : Except Fault Bool :=
  let k := s.simpleKey
  if ¬ k.possible then .ok false
  else if k.mark.line < s.mark.line ∨ k.mark.index + 1024 < s.mark.index then
    if k.required then .error .missingColon else .ok false
  else .ok true

def unroll (column : Int) (mark : Mark) : (fuel : Nat) → Scanner → Scanner
  | 0, s => s
  | fuel + 1, s =>
    if s.flowLevel = 0 ∧ column < s.indent then
      unroll column mark fuel { s.push .blockEnd mark mark with
        indent := s.indents.headD (-1)
        indents := s.indents.tail }
    else s

def closeBlocks (s : Scanner) (column : Int) (mark : Mark) : Scanner :=
  s.unroll column mark (s.indents.length + 1)

/-- Opens a block at a column if it is deeper than the current one. Its token goes before the token
of a number. -/
def openBlock (s : Scanner) (column index : Nat) (kind : TokenKind) (mark : Mark) :
    Except Fault Scanner :=
  if s.flowLevel = 0 ∧ s.indent < column then
    if maxDepth ≤ s.indents.length then .error .tooDeep
    else .ok { s.insertAt index kind mark with
      indent := column
      indents := s.indent :: s.indents }
  else .ok s

def streamEnd (s : Scanner) : Except Fault Scanner := do
  let m := s.mark
  let m : Mark := if m.column = 0 then m else ⟨m.index, m.line + 1, 0⟩
  let s := { s with cursor := { s.cursor with mark := m } }
  let s ← (s.closeBlocks (-1) m).dropKey
  return { s with keyAllowed := false }.push .streamEnd m m

def documentIndicator (s : Scanner) (kind : TokenKind) : Except Fault Scanner := do
  let s ← (s.closeBlocks (-1) s.mark).dropKey
  let next := Cursor.skipN 3 s.cursor
  return { s with keyAllowed := false, cursor := next }.push kind s.mark next.mark

def openFlow (s : Scanner) (kind : TokenKind) : Except Fault Scanner := do
  let s ← s.noteKey
  if maxDepth ≤ s.flowLevel then throw .tooDeep
  return { s with
    flowLevel := s.flowLevel + 1
    outerKeys := s.simpleKey :: s.outerKeys
    simpleKey := {}
    keyAllowed := true }.pushChar kind

def closeFlow (s : Scanner) (kind : TokenKind) : Except Fault Scanner := do
  let s ← s.dropKey
  let s := if s.flowLevel = 0 then s else { s with
    flowLevel := s.flowLevel - 1
    simpleKey := s.outerKeys.headD {}
    outerKeys := s.outerKeys.tail }
  return { s with keyAllowed := false }.pushChar kind

def flowEntry (s : Scanner) : Except Fault Scanner := do
  return { ← s.dropKey with keyAllowed := true }.pushChar .flowEntry

def blockEntry (s : Scanner) : Except Fault Scanner := do
  if s.flowLevel = 0 ∧ ¬ s.keyAllowed then throw .entryNotAllowed
  let s ← s.openBlock s.mark.column s.tokens.size .blockSequence s.mark
  return { ← s.dropKey with keyAllowed := true }.pushChar .blockEntry

def keySign (s : Scanner) : Except Fault Scanner := do
  if s.flowLevel = 0 ∧ ¬ s.keyAllowed then throw .keyNotAllowed
  let s ← s.openBlock s.mark.column s.tokens.size .blockMapping s.mark
  return { ← s.dropKey with keyAllowed := s.flowLevel == 0 }.pushChar .key

def valueSign (s : Scanner) : Except Fault Scanner := do
  let k := s.simpleKey
  if ← s.checkKey then
    let s ← (s.insertAt k.index .key k.mark).openBlock k.mark.column k.index .blockMapping k.mark
    return { s with
      simpleKey := { k with possible := false }
      keyAllowed := false }.pushChar .value
  else
    if s.flowLevel = 0 ∧ ¬ s.keyAllowed then throw .valueNotAllowed
    let s ← s.openBlock s.mark.column s.tokens.size .blockMapping s.mark
    return { s with
      simpleKey := { k with possible := false }
      keyAllowed := s.flowLevel == 0 }.pushChar .value

def readAnchor (c : Cursor) : Except Fault (String × Cursor) :=
  let (name, c) := c.skip.readWhile isWordChar
  if name.isEmpty ∨ ¬ (c.gapAt 0 || c.rest.head?.any ("?:,]\x7d%@\x60".toList.contains ·)) then
    .error .anchorName
  else .ok (name, c)

def isUriChar (c : Char) : Bool := isWordChar c || ";/?:@&=+$.,!~*'()[]%".toList.contains c

def uriBytes : (fuel : Nat) → List Char → List UInt8 × List Char
  | fuel + 1, '%' :: a :: b :: rest =>
    match hexValue? a, hexValue? b with
    | some x, some y =>
      let (bytes, rest) := uriBytes fuel rest
      (UInt8.ofNat (16 * x + y) :: bytes, rest)
    | _, _ => ([], '%' :: a :: b :: rest)
  | _, cs => ([], cs)

def readUri : (fuel : Nat) → String → Cursor → Except Fault (String × Cursor)
  | 0, out, c => .ok (out, c)
  | fuel + 1, out, c =>
    match c.rest with
    | ch :: _ =>
      if ch = '%' then
        let (bytes, _) := uriBytes c.rest.length c.rest
        match bytes, String.fromUTF8? ⟨bytes.toArray⟩ with
        | _ :: _, some s => readUri fuel (out ++ s) (Cursor.skipN (3 * bytes.length) c)
        | _, _ => .error .tagUri
      else if isUriChar ch then readUri fuel (out.push ch) c.skip
      else .ok (out, c)
    | [] => .ok (out, c)

def readHandle (c : Cursor) : String × Cursor :=
  let (name, c) := c.skip.readWhile isWordChar
  if c.sees '!' then ("!" ++ name ++ "!", c.skip) else ("!" ++ name, c)

def readTag (c : Cursor) : Except Fault (String × String × Cursor) := do
  let fuel := c.rest.length
  let (handle, suffix, c) ←
    if c.ahead? 1 = some '<' then
      let (uri, c) ← readUri fuel "" c.skip.skip
      if uri.isEmpty then throw .tagUri
      if ¬ c.sees '>' then throw .tagUri
      pure ("", uri, c.skip)
    else
      let (handle, c) := readHandle c
      if 1 < handle.length ∧ handle.toList.getLast? = some '!' then
        let (uri, c) ← readUri fuel "" c
        if uri.isEmpty then throw .tagUri
        pure (handle, uri, c)
      else
        let (uri, c) ← readUri fuel (String.ofList handle.toList.tail) c
        pure (if uri.isEmpty then ("", "!", c) else ("!", uri, c))
  if c.gapAt 0 then return (handle, suffix, c) else throw .tagEnd

def readVersionNumber (c : Cursor) : Except Fault (Nat × Cursor) :=
  let (digits, c) := c.readWhile Char.isDigit
  if digits.isEmpty ∨ 2 < digits.length then .error .directive
  else .ok (digits.toList.foldl (fun n d => 10 * n + (d.toNat - '0'.toNat)) 0, c)

def readDirective (c : Cursor) : Except Fault (TokenKind × Cursor) := do
  let (name, c) := c.skip.readWhile isWordChar
  if name.isEmpty ∨ ¬ c.gapAt 0 then throw .directive
  let (kind, c) ←
    if name = "YAML" then
      let (major, c) ← readVersionNumber (c.skipWhile isBlank)
      if ¬ c.sees '.' then throw .directive
      let (minor, c) ← readVersionNumber c.skip
      pure (TokenKind.version major minor, c)
    else if name = "TAG" then
      let c := c.skipWhile isBlank
      if ¬ c.sees '!' then throw .directive
      let (handle, c) := readHandle c
      if handle ≠ "!" ∧ ¬ (1 < handle.length ∧ handle.toList.getLast? = some '!') then
        throw .directive
      if ¬ c.seesBlank then throw .directive
      let (uri, c) ← readUri c.rest.length "" (c.skipWhile isBlank)
      if uri.isEmpty ∨ ¬ c.gapAt 0 then throw .directive
      pure (TokenKind.handle handle uri, c)
    else throw .directive
  let c := c.skipWhile isBlank
  let c := if c.sees '#' then c.skipComment else c
  if ¬ c.endsLine then throw .directive
  return (kind, c.skipLine)

def directive (s : Scanner) : Except Fault Scanner := do
  let s ← (s.closeBlocks (-1) s.mark).dropKey
  let (kind, next) ← readDirective s.cursor
  return { s with keyAllowed := false, cursor := next }.push kind s.mark next.mark

def anchor (s : Scanner) (kind : String → TokenKind) : Except Fault Scanner := do
  let s ← s.noteKey
  let (name, next) ← readAnchor s.cursor
  return { s with keyAllowed := false, cursor := next }.push (kind name) s.mark next.mark

def tag (s : Scanner) : Except Fault Scanner := do
  let s ← s.noteKey
  let (handle, suffix, next) ← readTag s.cursor
  return { s with keyAllowed := false, cursor := next }.push (.tag handle suffix) s.mark next.mark

def blockScalar (s : Scanner) (literal : Bool) : Except Fault Scanner := do
  let s ← s.dropKey
  let (text, next) ← readBlock literal s.indent s.cursor
  return { s with keyAllowed := true, cursor := next }.push
    (.scalar text (if literal then .literal else .folded)) s.mark next.mark

def quoted (s : Scanner) (single : Bool) : Except Fault Scanner := do
  let s ← s.noteKey
  let (text, next) ← readQuoted single s.cursor
  return { s with keyAllowed := false, cursor := next }.push
    (.scalar text (if single then .single else .double)) s.mark next.mark

def plain (s : Scanner) : Except Fault Scanner := do
  let s ← s.noteKey
  let p ← readPlain (s.flowLevel != 0) (s.indent + 1).toNat s.cursor
  return { s with keyAllowed := p.broken, cursor := p.next }.push (.scalar p.text .plain) s.mark p.stop

/-- Passes blanks, comments and line breaks. After a line break a key may begin. -/
def skipGap : (fuel : Nat) → Scanner → Scanner
  | 0, s => s
  | fuel + 1, s =>
    let c := s.cursor
    let c := if c.mark.column = 0 ∧ c.sees (Char.ofNat 0xfeff) then c.skip else c
    let tabs := s.flowLevel != 0 || !s.keyAllowed
    let c := c.skipWhile fun ch => ch == ' ' || (tabs && ch == '\t')
    let c := if c.sees '#' then c.skipComments (c.rest.length + 1) else c
    if c.seesBreak then
      skipGap fuel { s with cursor := c.skipLine, keyAllowed := s.keyAllowed || s.flowLevel == 0 }
    else { s with cursor := c }

def isIndicator (c : Char) : Bool := "-?:,[]\x7b\x7d#&*!|>'\"%@\x60".toList.contains c

def fetchToken (s : Scanner) (ch : Char) : Except Fault Scanner :=
  let flow := s.flowLevel != 0
  let gap := s.cursor.gapAt 1
  if ch == '[' then s.openFlow .openSequence
  else if ch == '\x7b' then s.openFlow .openMapping
  else if ch == ']' then s.closeFlow .closeSequence
  else if ch == '\x7d' then s.closeFlow .closeMapping
  else if ch == ',' then s.flowEntry
  else if ch == '-' && gap then s.blockEntry
  else if ch == '?' && (flow || gap) then s.keySign
  else if ch == ':' && (flow || gap) then s.valueSign
  else if ch == '*' then s.anchor .ref
  else if ch == '&' then s.anchor .anchor
  else if ch == '!' then s.tag
  else if ch == '|' && !flow then s.blockScalar true
  else if ch == '>' && !flow then s.blockScalar false
  else if ch == '\'' then s.quoted true
  else if ch == '"' then s.quoted false
  else if !(isBlank ch || isIndicator ch) || (ch == '-' && !(s.cursor.ahead? 1).any isBlank) ||
      (!flow && (ch == '?' || ch == ':') && !gap) then s.plain
  else .error .cannotStart

/-- Passes a comment after a token; a dash has none. -/
def afterToken (s : Scanner) : Scanner :=
  match s.tokens.back? with
  | some ⟨.blockEntry, _, _⟩ => s
  | _ => { s with cursor := s.cursor.skipLineComment }

def fetch (s : Scanner) : Except Fault Scanner :=
  let before := s.mark
  let s := s.skipGap (s.cursor.rest.length + 1)
  let s := s.closeBlocks s.mark.column before
  match s.cursor.rest with
  | [] => s.streamEnd
  | ch :: _ =>
    if s.mark.column = 0 ∧ ch = '%' then s.directive
    else if s.cursor.atIndicator then
      s.documentIndicator (if ch = '-' then .documentStart else .documentEnd)
    else do return (← s.fetchToken ch).afterToken

def fetchAll : (fuel : Nat) → Scanner → Array Token × Option Fault
  | 0, s => (s.tokens, none)
  | fuel + 1, s =>
    match s.fetch with
    | .error e => (s.tokens, some e)
    | .ok s =>
      match s.tokens.back? with
      | some ⟨.streamEnd, _, _⟩ => (s.tokens, none)
      | _ => fetchAll fuel s

end Scanner

def isAllowed (c : Char) : Bool :=
  let n := c.toNat
  n == 0x09 || n == 0x0a || n == 0x0d || (0x20 ≤ n && n ≤ 0x7e) || n == 0x85 ||
    (0xa0 ≤ n && n ≤ 0xfffd) || 0x10000 ≤ n

def tokens (text : String) : Array Token × Option Fault :=
  let cs := match text.toList with
    | c :: cs => if c.toNat == 0xfeff then cs else c :: cs
    | [] => []
  if cs.all isAllowed then
    Scanner.fetchAll (cs.length + 2) { cursor := { rest := cs }, tokens := #[⟨.streamStart, {}, {}⟩] }
  else (#[], some .controlCharacter)

end CommandPack.Yaml
