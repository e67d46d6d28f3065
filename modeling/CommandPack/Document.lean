import CommandPack.Problem.Basic
import CommandPack.Problem.Suggest
import CommandPack.Program.Basic
import CommandPack.Yaml.Value

/-!
Documents: programs written in YAML. Reading goes on after a problem, so that all of them are found.
-/

namespace CommandPack.Document

open Text

structure Settings where
  file : String := ""
  maxDepth : Int := 100

abbrev Reading := ReaderT Settings (StateM (Array Problem))

def reportNoted (pos : Position) (code message note : String) : Reading Unit := do
  let s ← read
  modify (·.push { (Problem.badSyntax message).withLocation s.file pos.line pos.column with
    code
    note })

def report (n : Yaml.Node) (code message : String) : Reading Unit :=
  reportNoted n.pos code message ""

def reportKey (key : Yaml.Node) (what : String) (allowed : List String) : Reading Unit :=
  reportNoted key.pos "E1001" s!"unknown {what} key {quote key.text}"
    (suggestionHint (suggest key.text allowed))

def dropSeen (what : String) : (seen : List String) → List (Yaml.Node × Yaml.Node) →
    Reading (List (Yaml.Node × Yaml.Node))
  | _, [] => return []
  | seen, (k, v) :: rest => do
    if seen.contains k.text then
      report k "E1001" s!"duplicate {what} key {quote k.text}"
      dropSeen what seen rest
    else return (k, v) :: (← dropSeen what (k.text :: seen) rest)

def entries? (what : String) (n : Yaml.Node) : Reading (Option (List (Yaml.Node × Yaml.Node))) :=
  match n with
  | .mapping _ _ es => some <$> dropSeen what [] es
  | _ => do
    report n "E1001" s!"{what} must be a mapping"
    return none

def entries (what : String) (n : Yaml.Node) : Reading (List (Yaml.Node × Yaml.Node)) :=
  return (← entries? what n).getD []

def text (what : String) (n : Yaml.Node) : Reading String :=
  match n with
  | .scalar _ tag s _ =>
    if tag = "!!null" then do
      report n "E1001" s!"{what} must be a string"
      return ""
    else return s
  | _ => do
    report n "E1001" s!"{what} must be a string"
    return ""

def texts (what : String) (n : Yaml.Node) : Reading (List String) :=
  match n with
  | .scalar .. => return [← text what n]
  | .sequence _ _ items => items.mapM (text what)
  | _ => do
    report n "E1001" s!"{what} must be a list of strings"
    return []

def items (what : String) (n : Yaml.Node) : Reading (List Yaml.Node) :=
  match n with
  | .sequence _ _ items => return items
  | .scalar _ "!!null" _ _ => return []
  | _ => do
    report n "E1001" s!"{what} must be a list"
    return []

def isIdentStart (c : Char) : Bool := c.isAlpha || c == '_'

def isIdentChars : List Char → Bool
  | [] => false
  | c :: cs => isIdentStart c && cs.all fun c => c.isAlphanum || c == '_'

/-- A letter or underscore, then letters, digits and underscores. -/
def isIdent (s : String) : Bool := isIdentChars s.toList

def isRef (s : String) : Bool :=
  match cut? '.' s with
  | none => isIdent s
  | some (a, b) => isIdent a && isIdent b

def isWhole (cs : List Char) : Bool :=
  let digits := (dropLead? ['-'] cs).getD cs
  !digits.isEmpty && digits.all Char.isDigit

def isRange (s : String) : Bool :=
  match cutText? ['.', '.'] s.toList with
  | none => isWhole s.toList
  | some ([], b) => isWhole b
  | some (a, []) => isWhole a
  | some (a, b) => isWhole a && isWhole b

def programKeys : List String := ["namespace", "vars", "functions", "classes"]

def varKeys : List String :=
  ["score", "objective", "storage", "entity", "block", "path", "type", "object"]

def functionKeys : List String := ["name", "description", "tags", "body"]

def classKeys : List String := ["name", "inherits", "attributes", "functions"]

def statementKeys : List String :=
  ["set", "add", "op", "while", "if", "call", "return", "cmd", "print", "new"]

def isTrue : Yaml.Node → Bool
  | .scalar _ "!!bool" "true" _ => true
  | _ => false

/-- Puts an entry into a variable; the number counts the places named so far. -/
def varEntry (v : VarDecl × Nat) (key value : Yaml.Node) : Reading (VarDecl × Nat) := do
  let (v, places) := v
  match key.text with
  | "score" =>
    unless isTrue value do report value "E1004" s!"variable {v.name}: score must be true"
    return (v, places)
  | "objective" => return ({ v with objective := ← text "objective" value }, places)
  | "storage" => return ({ v with kind := .storage, target := ← text "storage" value }, places + 1)
  | "entity" => return ({ v with kind := .entity, target := ← text "entity" value }, places + 1)
  | "block" => return ({ v with kind := .block, target := ← text "block" value }, places + 1)
  | "path" => return ({ v with path := ← text "path" value }, places)
  | "type" => return ({ v with type := ← text "type" value }, places)
  | "object" => return ({ v with cls := ← text "object" value }, places)
  | _ =>
    reportKey key "variable" varKeys
    return (v, places)

/-- What is wrong with the entries of a variable taken together. -/
def varFault? (v : VarDecl) (places : Nat) : Option String :=
  let score := v.kind == .score
  if 1 < places then some s!"variable {v.name} has more than one of storage, entity and block"
  else if score && (!v.path.isEmpty || !v.type.isEmpty) then
    some s!"variable {v.name}: path and type need storage, entity or block"
  else if !score && v.path.isEmpty then some s!"variable {v.name} has no path"
  else if !score && (!v.cls.isEmpty || !v.objective.isEmpty) then
    some s!"variable {v.name}: object and objective need a score"
  else none

def varDecl (key value : Yaml.Node) : Reading (Option VarDecl) := do
  let name := key.text
  if ¬ isIdent name then
    report key "E1004" s!"invalid variable name {quote name}"
    return none
  let v : VarDecl := { pos := key.pos, name, kind := .score }
  if let .scalar _ _ word _ := value then
    if word = "score" then return some v
    report value "E1004" s!"variable {name}: expected \"score\" or a mapping"
    return none
  let es ← entries "variable" value
  let (v, places) ← es.foldlM (fun v (k, x) => varEntry v k x) (v, 0)
  if let some message := varFault? v places then report value "E1004" message
  return some (if v.kind ≠ .score ∧ v.type.isEmpty then { v with type := "int" } else v)

def ident (n : Yaml.Node) (name : String) : Reading (Option Term) := do
  if isRef name then return some ⟨n.pos, .ident name⟩
  report n "E1002" s!"invalid variable reference {quote name}"
  return none

def isQuoted (style : Yaml.Style) : Bool := style == .single || style == .double

/-- A number, a quoted text or a variable. -/
def term (n : Yaml.Node) : Reading (Option Term) := do
  match n with
  | .scalar pos tag s style =>
    match tag with
    | "!!int" =>
      match Decimal.readMarkedInt? 64 s with
      | some v => return some ⟨pos, .int (.ofInt v)⟩
      | none =>
        report n "E1002" s!"invalid integer {quote s}"
        return none
    | "!!float" =>
      match Decimal.readDouble? s with
      | some x => return some ⟨pos, .float x⟩
      | none =>
        report n "E1002" s!"invalid float {quote s}"
        return none
    | "!!str" => if isQuoted style then return some ⟨pos, .string s⟩ else ident n s
    | _ =>
      report n "E1002" s!"expected a number, string or variable, got {quote s}"
      return none
  | _ =>
    report n "E1002" "expected a number, string or variable"
    return none

def varRef (n : Yaml.Node) : Reading (Option Term) := do
  match ← term n with
  | none => return none
  | some t =>
    if let .ident _ := t.kind then return some t
    report n "E1002" s!"expected a variable, got {t.display}"
    return none

def comparisons : List (String × String) :=
  [("<", "<"), ("<=", "<="), ("=", "="), ("==", "="), (">=", ">="), (">", ">"),
    ("matches", "matches")]

def testRight (n : Yaml.Node) (t : Test) (right : String) : Reading (Option Test) := do
  if t.op = "matches" then
    if isRange right then return some { t with range := right }
    report n "E1003" s!"invalid range {quote right}"
    return none
  match Decimal.readInt? 32 right with
  | some v => return some { t with right := some ⟨n.pos, .int (.ofInt v)⟩ }
  | none =>
    let some r ← ident n right | return none
    return some { t with right := some r }

/-- A comparison, `x matches range` or `exists x`. -/
def test (n : Yaml.Node) : Reading (Option Test) := do
  let .scalar pos _ s _ := n
    | report n "E1003" "a condition is a string like \"i < 5\""
      return none
  match fields s with
  | ["exists", x] =>
    let some left ← ident n x | return none
    return some { pos, left, op := "exists" }
  | [l, op, r] =>
    let some meant := comparisons.lookup op
      | report n "E1003" s!"invalid comparison {quote op} in condition {quote s}"
        return none
    let some left ← ident n l | return none
    testRight n { pos, left, op := meant } r
  | _ =>
    report n "E1003" s!"invalid condition {quote s}"
    return none

abbrev Arguments := List (String × Yaml.Node)

def knownArguments (what : String) (allowed : List String) : List (Yaml.Node × Yaml.Node) →
    Reading (Arguments × Bool)
  | [] => return ([], true)
  | (k, v) :: rest => do
    if allowed.contains k.text then
      let (args, ok) ← knownArguments what allowed rest
      return ((k.text, v) :: args, ok)
    else
      reportKey k what allowed
      let (args, _) ← knownArguments what allowed rest
      return (args, false)

/-- The arguments of a statement. Those that are not `optional` have to be there. -/
def arguments (n : Yaml.Node) (what : String) (names : List (String × Bool)) :
    Reading (Option Arguments) := do
  let some es ← entries? what n | return none
  let (args, ok) ← knownArguments what (names.map (·.1)) es
  let missing := names.filter fun (name, optional) => !optional && (args.lookup name).isNone
  missing.forM fun (name, _) => report n "E1002" s!"{what} needs {quote name}"
  return if ok && missing.isEmpty then some args else none

def argument (args : Arguments) (name : String) (n : Yaml.Node) : Yaml.Node := (args.lookup name).getD n

def required (names : List String) : List (String × Bool) := names.map (·, false)

def callee (n : Yaml.Node) : Reading String := do
  let name ← text "function" n
  unless name.isEmpty || isRef name do
    report n "E1002" s!"invalid function reference {quote name}"
  return name

/-- The values of a style; those that have none are reported. -/
def styleValues : List (Yaml.Node × Yaml.Node) → Reading (Dict Datum)
  | [] => return []
  | (k, v) :: rest => do
    match v.value with
    | .ok d => return Dict.insert k.text d (← styleValues rest)
    | .error e =>
      report v "E1002" ("invalid style value: " ++ e.message)
      styleValues rest

def piece (n : Yaml.Node) : Reading (Option Piece) := do
  match n with
  | .mapping pos .. => return some (.style pos (← styleValues (← entries "style" n)))
  | .scalar pos "!!str" s style =>
    if isQuoted style then return some (.text pos s) else return (← term n).map .term
  | _ => return (← term n).map .term

def pieces (n : Yaml.Node) : Reading (List Piece) :=
  match n with
  | .sequence _ _ ns => ns.filterMapM piece
  | _ => return (← piece n).toList

def printStmt (pos : Position) (n : Yaml.Node) : Reading (Option Stmt) := do
  match n with
  | .mapping .. =>
    let some args ← arguments n "print" [("target", true), ("parts", false)] | return none
    let target ← match args.lookup "target" with
      | some t => text "target" t
      | none => pure "@a"
    return some (.print pos target (← pieces (argument args "parts" n)))
  | _ => return some (.print pos "@a" (← pieces n))

def callStmt (pos : Position) (n : Yaml.Node) : Reading (Option Stmt) := do
  match n with
  | .scalar .. => return some (.call pos (← callee n) none)
  | _ =>
    let some args ← arguments n "call" [("function", false), ("arg", true)] | return none
    let function ← callee (argument args "function" n)
    let arg ← match args.lookup "arg" with
      | some a => term a
      | none => pure none
    return some (.call pos function arg)

def leaveStmt (pos : Position) (n : Yaml.Node) : Reading (Option Stmt) := do
  match n with
  | .scalar _ "!!null" _ _ => return some (.leave pos none)
  | _ => return (← term n).map fun t => .leave pos (some t)

def commandStmt (pos : Position) (n : Yaml.Node) : Reading (Option Stmt) := do
  let command := stripLead "/" (trim (← text "cmd" n))
  if command.isEmpty then
    report n "E1002" "cmd must not be empty"
    return none
  return some (.command pos command)

def assignment (args : Arguments) (n : Yaml.Node) : Reading (Option (Term × Term)) := do
  let dst ← varRef (argument args "var" n)
  let src ← term (argument args "value" n)
  return do return (← dst, ← src)

/-- The statement of a key. `nested` reads the statements inside of it. -/
def statementOf (nested : Yaml.Node → Yaml.Node → Reading (List Stmt)) (key n : Yaml.Node) :
    Reading (Option Stmt) := do
  let pos := key.pos
  match key.text with
  | "set" =>
    let some args ← arguments n "set" (required ["var", "value"]) | return none
    return (← assignment args n).map fun (dst, src) => .set pos dst src
  | "add" =>
    let some args ← arguments n "add" (required ["var", "value"]) | return none
    return (← assignment args n).map fun (dst, src) => .add pos dst src
  | "op" =>
    let some args ← arguments n "op" (required ["var", "op", "value"]) | return none
    let some (dst, src) ← assignment args n | return none
    return some (.op pos dst (← text "operator" (argument args "op" n)) src)
  | "while" =>
    let some args ← arguments n "while" (required ["cond", "body"]) | return none
    let t ← test (argument args "cond" n)
    let body ← nested key (argument args "body" n)
    return t.map fun t => .loop pos t body
  | "if" =>
    let some args ← arguments n "if" [("cond", false), ("then", false), ("else", true)]
      | return none
    let t ← test (argument args "cond" n)
    let yes ← nested key (argument args "then" n)
    let no ← (args.lookup "else").mapM (nested key)
    return t.map fun t => .branch pos t yes no
  | "call" => callStmt pos n
  | "return" => leaveStmt pos n
  | "cmd" => commandStmt pos n
  | "print" => printStmt pos n
  | "new" =>
    let some args ← arguments n "new" (required ["class", "var"]) | return none
    let some dst ← varRef (argument args "var" n) | return none
    return some (.create pos (← text "class" (argument args "class" n)) dst)
  | name =>
    reportNoted pos "E1002" s!"unknown statement {quote name}"
      (suggestionHint (suggest name statementKeys))
    return none

def statement (nested : Yaml.Node → Yaml.Node → Reading (List Stmt)) (n : Yaml.Node) : Reading (Option Stmt) := do
  match n with
  | .mapping _ _ [(key, value)] => statementOf nested key value
  | _ =>
    report n "E1002" ("a statement is a mapping with exactly one key, one of: " ++
      join ", " statementKeys)
    return none

def block (nested : Yaml.Node → Yaml.Node → Reading (List Stmt)) (n : Yaml.Node) : Reading (List Stmt) := do
  (← items "body" n).filterMapM (statement nested)

/-- The statements inside of another, if the depth that is left allows them. -/
def nested : (left : Nat) → (key body : Yaml.Node) → Reading (List Stmt)
  | 0, key, _ => do
    let s ← read
    report key "E1002" s!"statements nested deeper than {s.maxDepth} levels"
    return []
  | left + 1, _, body => block (nested left) body

def functionEntry (f : FunctionDecl) (key value : Yaml.Node) : Reading FunctionDecl := do
  match key.text with
  | "name" => return { f with name := ← text "function name" value }
  | "description" => return { f with description := ← text "description" value }
  | "tags" => return { f with tags := ← texts "tags" value }
  | "body" => return { f with body := ← block (nested (← read).maxDepth.toNat) value }
  | _ =>
    reportKey key "function" functionKeys
    return f

def isMapping : Yaml.Node → Bool
  | .mapping .. => true
  | _ => false

def function (n : Yaml.Node) : Reading (Option FunctionDecl) := do
  let es ← entries "function" n
  let f ← es.foldlM (fun f (k, v) => functionEntry f k v) { pos := n.pos, name := "" }
  if ¬ isMapping n then return none
  if isIdent f.name then return some f
  report n "E1004" s!"invalid function name {quote f.name}"
  return none

def member (members : Dict String) (key value : Yaml.Node) : Reading (Dict String) := do
  if isIdent key.text then return Dict.insert key.text (← text "attribute type" value) members
  report key "E1004" s!"invalid attribute name {quote key.text}"
  return members

def classEntry (c : ClassDecl) (key value : Yaml.Node) : Reading ClassDecl := do
  match key.text with
  | "name" => return { c with name := ← text "class name" value }
  | "inherits" => return { c with inherits := ← texts "inherits" value }
  | "attributes" =>
    let es ← entries "attributes" value
    return { c with members := ← es.foldlM (fun ms (k, v) => member ms k v) c.members }
  | "functions" =>
    return { c with functions := ← (← items "functions" value).filterMapM function }
  | _ =>
    reportKey key "class" classKeys
    return c

def classDecl (n : Yaml.Node) : Reading (Option ClassDecl) := do
  let es ← entries "class" n
  let c ← es.foldlM (fun c (k, v) => classEntry c k v) { pos := n.pos, name := "" }
  if ¬ isMapping n then return none
  if isIdent c.name then return some c
  report n "E1004" s!"invalid class name {quote c.name}"
  return none

def programEntry (p : Program) (key value : Yaml.Node) : Reading Program := do
  match key.text with
  | "namespace" => return { p with root := ← text "namespace" value }
  | "vars" =>
    return { p with vars := ← (← entries "vars" value).filterMapM fun (k, v) => varDecl k v }
  | "functions" => return { p with functions := ← (← items "functions" value).filterMapM function }
  | "classes" => return { p with classes := ← (← items "classes" value).filterMapM classDecl }
  | _ =>
    reportKey key "program" programKeys
    return p

def program (n : Yaml.Node) : Reading Program := do
  let es ← entries "program" n
  let p ← es.foldlM (fun p (k, v) => programEntry p k v) { pos := n.pos, root := "" }
  if p.root.isEmpty && isMapping n then report n "E1001" "program has no namespace"
  return p

/-- The first number that follows `line `, or 0. -/
def lineIn : List Char → Nat
  | [] => 0
  | c :: cs =>
    let digits? := (dropLead? "line ".toList (c :: cs)).map (·.takeWhile Char.isDigit)
    match digits?.bind (Decimal.natOfDigits? 10) with
    | some n => min n (2 ^ 63 - 1)
    | none => lineIn cs

/-- The program in what a reader gives: the root of a document, if there is one, or the text of an error, which may
tell a line. A cancelled reading fails after the document is read. -/
def programOf (s : Settings) (cancelled : Bool) : Except String (Option Yaml.Node) → Except Failure Program
  | .error e => .error (.problem ((Problem.badSyntax ("invalid document: " ++ stripLead "yaml: " e)).withLocation
      s.file (lineIn e.toList) 0))
  | .ok none => .error (.problem ((Problem.badSyntax "empty document").withLocation s.file 1 1))
  | .ok (some root) =>
    let (p, problems) := ((program root).run s).run #[]
    if cancelled then .error (.plain "context canceled")
    else match Failure.ofProblems? problems.toList with
      | some f => .error f
      | none => .ok p

def readProgram (s : Settings) (cancelled : Bool) (source : String) : Except Failure Program :=
  programOf s cancelled (Yaml.load source)

end CommandPack.Document
