import CommandPack.Yaml.Cursor
import CommandPack.Text.Quoted

/-!
The text of YAML scalars: quoted, plain and in blocks.
-/

namespace CommandPack.Yaml

open Text

/-- Line breaks inside a scalar: a single one becomes a space. -/
def foldBreaks (first others : String) : String :=
  if first = "\n" then (if others.isEmpty then " " else others) else first ++ others

/-- Blanks between the words of a scalar: those on the line so far, or the breaks passed. -/
structure Gap where
  blanks : String := ""
  broken : Bool := false
  first : String := ""
  others : String := ""

def Gap.text (g : Gap) : String :=
  if g.broken then foldBreaks g.first g.others else g.blanks

/-- Passes blanks and line breaks. Tabs before column `indent` of a new line are refused. -/
def readGap (indent : Nat) : (fuel : Nat) → Gap → Cursor → Except Fault (Gap × Cursor)
  | 0, g, c => .ok (g, c)
  | fuel + 1, g, c =>
    match c.rest with
    | [] => .ok (g, c)
    | ch :: _ =>
      if isBlank ch then
        if g.broken ∧ c.mark.column < indent ∧ ch = '\t' then .error .tab
        else readGap indent fuel
          (if g.broken then g else { g with blanks := g.blanks.push ch }) c.skip
      else if isBreak ch then
        let (text, c) := c.readLine
        readGap indent fuel
          (if g.broken then { g with others := g.others ++ text }
            else { g with blanks := "", broken := true, first := g.first ++ text }) c
      else .ok (g, c)

def escapedChar? (ch : Char) : Option Char :=
  match ch with
  | '0' => some '\x00'
  | 'a' => some '\x07'
  | 'b' => some '\x08'
  | 't' | '\t' => some '\t'
  | 'n' => some '\n'
  | 'v' => some '\x0b'
  | 'f' => some '\x0c'
  | 'r' => some '\r'
  | 'e' => some '\x1b'
  | ' ' => some ' '
  | '"' => some '"'
  | '\'' => some '\''
  | '\\' => some '\\'
  | 'N' => some (Char.ofNat 0x85)
  | '_' => some (Char.ofNat 0xa0)
  | 'L' => some (Char.ofNat 0x2028)
  | 'P' => some (Char.ofNat 0x2029)
  | _ => none

def escapeDigits? (ch : Char) : Option Nat :=
  match ch with
  | 'x' => some 2
  | 'u' => some 4
  | 'U' => some 8
  | _ => none

/-- The character that an escape after a backslash stands for; `c` is at the letter. -/
def readEscape (c : Cursor) : Except Fault (Char × Cursor) :=
  match c.rest with
  | [] => .error .unknownEscape
  | ch :: digits =>
    match escapedChar? ch, escapeDigits? ch with
    | some out, _ => .ok (out, c.skip)
    | none, some n =>
      let hex := digits.take n
      if hex.length = n ∧ hex.all (fun d => (hexValue? d).isSome) then
        let value := hex.foldl (fun v d => 16 * v + (hexValue? d).getD 0) 0
        if value < 0xd800 ∨ (0xdfff < value ∧ value ≤ 0x10ffff) then
          .ok (Char.ofNat value, Cursor.skipN (n + 1) c)
        else .error .badCharacter
      else .error .badEscape
    | none, none => .error .unknownEscape

/-- The characters of a quoted scalar up to a blank, a line break, its end or an escaped line
break, of which the last tells. -/
def quotedRun (single : Bool) : (fuel : Nat) → String → Cursor →
    Except Fault (String × Bool × Cursor)
  | 0, out, c => .ok (out, false, c)
  | fuel + 1, out, c =>
    match c.rest with
    | [] => .ok (out, false, c)
    | ch :: more =>
      if isBlank ch || isBreak ch then .ok (out, false, c)
      else if single then
        if ch = '\'' then
          if more.head? = some '\'' then quotedRun single fuel (out.push '\'') c.skip.skip
          else .ok (out, false, c)
        else quotedRun single fuel (out.push ch) c.skip
      else if ch = '"' then .ok (out, false, c)
      else if ch = '\\' then
        if more.head?.any isBreak then .ok (out, true, c.skip.skipLine)
        else match readEscape c.skip with
          | .ok (e, c) => quotedRun single fuel (out.push e) c
          | .error e => .error e
      else quotedRun single fuel (out.push ch) c.skip

def quotedRest (single : Bool) : (fuel : Nat) → String → Cursor → Except Fault (String × Cursor)
  | 0, _, _ => .error .unexpectedEnd
  | fuel + 1, out, c => do
    if c.atIndicator then throw .unexpectedIndicator
    if c.atEnd then throw .unexpectedEnd
    let (out, broken, c) ← quotedRun single (fuel + 1) out c
    if c.sees (if single then '\'' else '"') then return (out, c.skip)
    let (gap, c) ← readGap 0 (fuel + 1) { broken } c
    quotedRest single fuel (out ++ gap.text) c

def readQuoted (single : Bool) (c : Cursor) : Except Fault (String × Cursor) :=
  quotedRest single c.rest.length "" c.skip

/-- Does a plain scalar end here? In flow collections brackets and commas end it. -/
def plainEnds (flow : Bool) (c : Cursor) : Bool :=
  match c.rest with
  | [] => true
  | ch :: _ => (ch == ':' && c.gapAt 1) ||
      (flow && (ch == ',' || ch == '?' || ch == '[' || ch == ']' || ch == '\x7b' || ch == '\x7d'))

def plainRun (flow : Bool) : (fuel : Nat) → String → Cursor → String × Cursor
  | 0, out, c => (out, c)
  | fuel + 1, out, c =>
    match c.rest with
    | [] => (out, c)
    | ch :: _ =>
      if isBlank ch || isBreak ch || plainEnds flow c then (out, c)
      else plainRun flow fuel (out.push ch) c.skip

structure Plain where
  text : String
  stop : Mark
  next : Cursor
  broken : Bool

def plainRest (flow : Bool) (indent : Nat) : (fuel : Nat) → Plain → Gap → Except Fault Plain
  | 0, p, _ => .ok p
  | fuel + 1, p, gap => do
    let c := p.next
    if c.atIndicator ∨ c.sees '#' then return p
    let (word, after) := plainRun flow (fuel + 1) "" c
    let (p, gap) : Plain × Gap :=
      if word.isEmpty then (p, gap)
      else (⟨p.text ++ gap.text ++ word, after.mark, after, false⟩, {})
    if ¬ (after.seesBlank || after.seesBreak) then return p
    let (gap, next) ← readGap indent (fuel + 1) gap after
    let p := { p with next, broken := gap.broken }
    if ¬ flow ∧ next.mark.column < indent then return p
    plainRest flow indent fuel p gap

def readPlain (flow : Bool) (indent : Nat) (c : Cursor) : Except Fault Plain :=
  plainRest flow indent (c.rest.length + 1) ⟨"", c.mark, c, false⟩ {}

/-- What is kept of the line breaks at the end of a block. -/
inductive Chomping where
  | strip | clip | keep

/-- Blank lines and the indentation of the next line of a block. The indentation is found out if it
is 0; `deepest` is the deepest so far. -/
def blockBreaks (indent : Nat) : (fuel deepest : Nat) → String → Cursor →
    Except Fault (Nat × String × Cursor)
  | 0, deepest, breaks, c => .ok (deepest, breaks, c)
  | fuel + 1, deepest, breaks, c =>
    let spaces := (c.rest.takeWhile (· == ' ')).length
    let c := Cursor.skipN (if indent = 0 then spaces else min spaces (indent - c.mark.column)) c
    let deepest := max deepest c.mark.column
    if (indent = 0 ∨ c.mark.column < indent) ∧ c.sees '\t' then .error .tab
    else if c.seesBreak then
      let (text, c) := c.readLine
      blockBreaks indent fuel deepest (breaks ++ text) c
    else .ok (deepest, breaks, c)

/-- The lines of a block. `lead` is the last line break, `breaks` the blank lines after it, and
`blank` tells whether the last line began with a blank. -/
def blockLines (literal : Bool) (indent : Nat) : (fuel : Nat) → (out lead breaks : String) →
    (blank : Bool) → Cursor → Except Fault (String × String × String × Cursor)
  | 0, out, lead, breaks, _, c => .ok (out, lead, breaks, c)
  | fuel + 1, out, lead, breaks, blank, c =>
    if c.mark.column ≠ indent ∨ c.atEnd then .ok (out, lead, breaks, c)
    else do
      let blankNow := c.seesBlank
      let joint :=
        if ¬ literal ∧ ¬ blank ∧ ¬ blankNow ∧ lead = "\n" then
          (if breaks.isEmpty then " " else "")
        else lead
      let (line, c) := c.readWhile (!isBreak ·)
      let (lead, c) := c.readLine
      let (_, next, c) ← blockBreaks indent (fuel + 1) 0 "" c
      blockLines literal indent fuel (out ++ joint ++ breaks ++ line) lead next blankNow c

/-- The signs after a block's indicator: what to keep at its end, and its indentation. -/
def blockHeader (c : Cursor) : Except Fault (Chomping × Nat × Cursor) := do
  let chomp (c : Cursor) : Chomping × Cursor :=
    if c.sees '+' then (.keep, c.skip) else if c.sees '-' then (.strip, c.skip) else (.clip, c)
  let digit (c : Cursor) : Except Fault (Nat × Cursor) :=
    match c.rest with
    | ch :: _ =>
      if ch = '0' then .error .zeroIndentation
      else if ch.isDigit then .ok (ch.toNat - '0'.toNat, c.skip)
      else .ok (0, c)
    | [] => .ok (0, c)
  if c.sees '+' || c.sees '-' then
    let (kept, c) := chomp c
    let (n, c) ← digit c
    return (kept, n, c)
  else
    let (n, c) ← digit c
    if n = 0 then return (.clip, 0, c)
    let (kept, c) := chomp c
    return (kept, n, c)

/-- A block scalar at its indicator, in a collection with the indentation `outer`. -/
def readBlock (literal : Bool) (outer : Int) (c : Cursor) : Except Fault (String × Cursor) := do
  let (kept, n, c) ← blockHeader c.skip
  let c := c.skipWhile isBlank
  let c := if c.sees '#' then c.skipComment else c
  if ¬ c.endsLine then throw .blockHeader
  let c := c.skipLine
  let fuel := c.rest.length + 1
  let given := if n = 0 then 0 else if 0 ≤ outer then outer.toNat + n else n
  let (deepest, breaks, c) ← blockBreaks given fuel 0 "" c
  let indent := if given = 0 then max (max deepest (outer + 1).toNat) 1 else given
  let (out, lead, breaks, c) ← blockLines literal indent fuel "" "" breaks false c
  return (match kept with
    | .strip => out
    | .clip => out ++ lead
    | .keep => out ++ lead ++ breaks, c)

end CommandPack.Yaml
