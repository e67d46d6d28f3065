import CommandPack.Position
import CommandPack.Yaml.Meaning
import CommandPack.Yaml.Token

/-!
YAML documents as trees, with the place of each node.
-/

namespace CommandPack.Yaml

/-- A node. The tag of a scalar tells the kind of its value. -/
inductive Node where
  | scalar (pos : Position) (tag text : String) (style : Style)
  /-- Another mention of an earlier node; none for a node around this one. -/
  | ref (pos : Position) (name : String) (target : Option Node)
  | sequence (pos : Position) (tag : String) (items : List Node)
  | mapping (pos : Position) (tag : String) (entries : List (Node × Node))
deriving Inhabited

namespace Node

def pos : Node → Position
  | scalar p .. | ref p .. | sequence p .. | mapping p .. => p

def text : Node → String
  | scalar _ _ text _ => text
  | ref _ name _ => name
  | _ => ""

end Node

def Mark.pos (m : Mark) : Position := ⟨m.line + 1, m.column + 1⟩

/-- What the tags of the standard begin with; they are written with two exclamation marks. -/
def standardTags : String := "tag:yaml.org,2002:"

def shortTag (tag : String) : String :=
  if Text.hasLead standardTags tag then "!!" ++ Text.stripLead standardTags tag else tag

/-- A scalar with the tag that is written, or else the one that its text and style tell. -/
def Node.ofScalar (pos : Position) (tag text : String) (style : Style) : Node :=
  let tag :=
    if tag ≠ "" ∧ tag ≠ "!" then shortTag tag
    else if style ≠ .plain then "!!str"
    else if text = "<<" then "!!merge"
    else (Meaning.ofText true text).tag
  .scalar pos tag text style

def Node.empty (m : Mark) : Node := .ofScalar m.pos "" "" .plain

def collectionTag (tag usual : String) : String :=
  if tag ≠ "" ∧ tag ≠ "!" then shortTag tag else usual

structure Reading where
  tokens : Array Token
  fault : Option Fault
  next : Nat := 0
  /-- The nodes with names. The number tells the token where each begins. -/
  anchors : List (String × Nat × Option Node) := []
  handles : List (String × String) := []

abbrev Reader := StateT Reading (Except Fault)

namespace Reader

def peek : Reader Token := do
  let s ← get
  match s.tokens[s.next]?, s.fault with
  | some t, none => return t
  | some t, some e => if s.next + 2 < s.tokens.size then return t else throw e
  | none, e => throw (e.getD .unexpectedEnd)

def skip : Reader Unit := modify fun s => { s with next := s.next + 1 }

def accept (kind : TokenKind) : Reader Bool := do
  if (← peek).kind = kind then
    skip
    return true
  else return false

def sees (kinds : List TokenKind) : Reader Bool := return decide ((← peek).kind ∈ kinds)

structure Properties where
  start : Mark
  anchor : Option String := none
  tag : String := ""

def resolveTag (handle suffix : String) : Reader String := do
  if handle = "" then return suffix
  match (← get).handles.lookup handle with
  | some lead => return lead ++ suffix
  | none => throw .unknownHandle

def readAnchor (p : Properties) : Reader Properties := do
  match (← peek).kind with
  | .anchor name =>
    skip
    return { p with anchor := some name }
  | _ => return p

/-- A name and a tag, in either order. An unknown handle shows after both are read. -/
def readProperties : Reader Properties := do
  let start := (← peek).start
  let p ← readAnchor { start }
  match (← peek).kind with
  | .tag handle suffix =>
    skip
    let p ← if p.anchor.isNone then readAnchor p else pure p
    let _ ← peek
    return { p with tag := ← resolveTag handle suffix }
  | _ => return p

/-- Gives a node its name before its parts are read: within them the name stands for no node yet. -/
def bind (p : Properties) : Reader Nat := do
  let id := (← get).next
  if let some name := p.anchor then
    modify fun s => { s with anchors := (name, id, none) :: s.anchors }
  return id

def complete (id : Nat) (p : Properties) (n : Node) : Reader Node := do
  if p.anchor.isSome then
    modify fun s => { s with
      anchors := s.anchors.map fun (name, i, old) => (name, i, if i = id then some n else old) }
  return n

mutual

/-- A node. Block collections are only read if `block` says so, and sequences that are not indented
if `indentless` does. -/
def node : (fuel : Nat) → (block indentless : Bool) → Reader Node
  | 0, _, _ => throw .tooDeep
  | fuel + 1, block, indentless => do
    let first ← peek
    if let .ref name := first.kind then
      skip
      match (← get).anchors.lookup name with
      | some (_, target) => return .ref first.start.pos name target
      | none => throw .unknownAnchor
    let p ← readProperties
    let t ← peek
    let pos := p.start.pos
    let named (read : Reader Node) : Reader Node := do
      let id ← bind p
      complete id p (← read)
    let sequence (items : Reader (List Node)) : Reader Node :=
      named do return .sequence pos (collectionTag p.tag "!!seq") (← items)
    let mapping (entries : Reader (List (Node × Node))) : Reader Node :=
      named do return .mapping pos (collectionTag p.tag "!!map") (← entries)
    match t.kind with
    | .scalar text style =>
      skip
      named (return .ofScalar pos p.tag text style)
    | .openSequence => sequence (skip *> flowItems fuel true)
    | .openMapping => mapping (skip *> flowEntries fuel true)
    | kind =>
      if indentless ∧ kind = .blockEntry then sequence (indentlessItems fuel)
      else if block ∧ kind = .blockSequence then sequence (skip *> blockItems fuel)
      else if block ∧ kind = .blockMapping then mapping (skip *> blockEntries fuel)
      else if p.anchor.isSome ∨ p.tag ≠ "" then named (return .ofScalar pos p.tag "" .plain)
      else throw .noContent

def blockItems : (fuel : Nat) → Reader (List Node)
  | 0 => throw .tooDeep
  | fuel + 1 => do
    let t ← peek
    match t.kind with
    | .blockEntry =>
      skip
      let item ← if ← sees [.blockEntry, .blockEnd] then pure (Node.empty t.stop)
        else node fuel true false
      return item :: (← blockItems fuel)
    | .blockEnd =>
      skip
      return []
    | _ => throw .expectedEntry

def indentlessItems : (fuel : Nat) → Reader (List Node)
  | 0 => throw .tooDeep
  | fuel + 1 => do
    let t ← peek
    match t.kind with
    | .blockEntry =>
      skip
      let item ← if ← sees [.blockEntry, .key, .value, .blockEnd] then pure (Node.empty t.stop)
        else node fuel true false
      return item :: (← indentlessItems fuel)
    | _ => return []

def blockEntries : (fuel : Nat) → Reader (List (Node × Node))
  | 0 => throw .tooDeep
  | fuel + 1 => do
    let t ← peek
    match t.kind with
    | .key =>
      skip
      let key ← if ← sees [.key, .value, .blockEnd] then pure (Node.empty t.stop)
        else node fuel true true
      let value ← blockValue fuel
      return (key, value) :: (← blockEntries fuel)
    | .blockEnd =>
      skip
      return []
    | _ => throw .expectedKey

def blockValue : (fuel : Nat) → Reader Node
  | 0 => throw .tooDeep
  | fuel + 1 => do
    let t ← peek
    match t.kind with
    | .value =>
      skip
      if ← sees [.key, .value, .blockEnd] then return Node.empty t.stop
      else node fuel true true
    | _ => return Node.empty t.start

def flowItems : (fuel : Nat) → (first : Bool) → Reader (List Node)
  | 0, _ => throw .tooDeep
  | fuel + 1, first => do
    if ← accept .closeSequence then return []
    unless first do
      unless ← accept .flowEntry do throw .expectedComma
    let t ← peek
    match t.kind with
    | .closeSequence =>
      skip
      return []
    | .key =>
      skip
      let pair ← flowPair fuel
      return .mapping t.start.pos "!!map" [pair] :: (← flowItems fuel false)
    | _ =>
      let item ← node fuel false false
      return item :: (← flowItems fuel false)

/-- A single entry among the items of a sequence. A missing key takes the sign after it along, and a
missing value stands where its sign does. -/
def flowPair : (fuel : Nat) → Reader (Node × Node)
  | 0 => throw .tooDeep
  | fuel + 1 => do
    let t ← peek
    let key ← if t.kind ∈ [.value, .flowEntry, .closeSequence] then do
        skip
        pure (Node.empty t.stop)
      else node fuel false false
    let t ← peek
    if t.kind = .value then
      skip
      unless ← sees [.flowEntry, .closeSequence] do
        return (key, ← node fuel false false)
    return (key, Node.empty t.start)

def flowEntries : (fuel : Nat) → (first : Bool) → Reader (List (Node × Node))
  | 0, _ => throw .tooDeep
  | fuel + 1, first => do
    if ← accept .closeMapping then return []
    unless first do
      unless ← accept .flowEntry do throw .expectedComma
    let t ← peek
    match t.kind with
    | .closeMapping =>
      skip
      return []
    | .key =>
      skip
      let key ← if ← sees [.value, .flowEntry, .closeMapping] then
          pure (Node.empty (← peek).start)
        else node fuel false false
      let value ← if ← accept .value then
          if ← sees [.flowEntry, .closeMapping] then pure (Node.empty (← peek).start)
          else node fuel false false
        else pure (Node.empty (← peek).start)
      return (key, value) :: (← flowEntries fuel false)
    | _ =>
      let key ← node fuel false false
      let value := Node.empty (← peek).start
      return (key, value) :: (← flowEntries fuel false)

end

/-- The directives before a document: at most one version, and distinct handles. -/
def directives : (fuel : Nat) → (versioned : Bool) → (handles : List (String × String)) →
    Reader (List (String × String))
  | 0, _, _ => throw .tooDeep
  | fuel + 1, versioned, handles => do
    match (← peek).kind with
    | .version major minor =>
      if versioned then throw .repeatedDirective
      if major ≠ 1 ∨ minor ≠ 1 then throw .version
      skip
      directives fuel true handles
    | .handle handle lead =>
      if (handles.lookup handle).isSome then throw .repeatedDirective
      skip
      directives fuel versioned (handles ++ [(handle, lead)])
    | _ => return handles

/-- The first document; none if there is none. -/
def document (fuel : Nat) : Reader (Option Node) := do
  let _ ← peek
  skip
  let first ← peek
  if first.kind = .streamEnd then return none
  let handles ← directives fuel false []
  modify fun s => { s with handles := handles ++ [("!", "!"), ("!!", standardTags)] }
  let marked := match first.kind with
    | .version .. | .handle .. | .documentStart => true
    | _ => false
  let root ← if marked then do
      unless ← accept .documentStart do throw .missingDocumentStart
      let t ← peek
      match t.kind with
      | .version .. | .handle .. | .documentStart | .documentEnd | .streamEnd =>
        pure (Node.empty t.start)
      | _ => node fuel true false
    else node fuel true false
  let _ ← peek
  return some root

end Reader

def read (text : String) : Except Fault (Option Node) :=
  let (tokens, fault) := tokens text
  (Reader.document (4 * tokens.size + 8)).run' { tokens, fault }

/-- The root of a text, or the text of an error. No line is told in it. -/
def load (text : String) : Except String (Option Node) := (read text).mapError ("yaml: " ++ ·.message)

end CommandPack.Yaml
