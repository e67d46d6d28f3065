import CommandPack.Program.Basic
import CommandPack.Problem.Suggest
import CommandPack.Library.Install

/-!
Compilation of programs to graphs. First all declarations are made, so that functions may call those
after them; then the bodies are filled. A function ends at its first problem, and the next one is
tried.
-/

namespace CommandPack.Compile

open Text

structure Family where
  name : String
  node : NodeId
  members : Dict DataType
  /-- The members of the class and its ancestors, in the order they are searched. -/
  lineage : List (Dict DataType)

def Family.member? (c : Family) (name : String) : Option DataType :=
  c.lineage.findSome? (Dict.find? name)

structure Variable where
  value : Operand
  cls : Option Family := none

structure Scope where
  lib : Option Library
  filename : String
  root : NodeId := 0
  vars : Dict Variable := []
  functions : Dict NodeId := []
  classes : Dict Family := []
  self : Option Variable := none

def reservedNames : List String := ["arg", "ret", "self"]

def Scope.scratch (sc : Scope) : Option Slot := sc.lib.map (·.scratch)

def Scope.classNames (sc : Scope) : List String :=
  sc.classes.keys ++ (if sc.lib.isSome then ["object"] else [])

/-- A problem with a hint at similar names. -/
def hinted (p : Problem) (name : String) (candidates : List String) : Problem :=
  { p with note := suggestionHint (suggest name candidates) }

def place (sc : Scope) (pos : Position) (context : List String) (p : Problem) : Problem :=
  if 0 < p.line then p
  else { p.withLocation sc.filename pos.line pos.column with
    context := if p.context.isEmpty then context else p.context }

/-- Problems of `x` are at `pos` unless they say otherwise. -/
def locate {α : Type} (sc : Scope) (pos : Position) (x : Build α) : Build α :=
  tryCatch x fun p => do throw (place sc pos (← get).context p)

def failAt {α : Type} (sc : Scope) (pos : Position) (p : Problem) : Build α := locate sc pos (throw p)

section Terms

variable (sc : Scope)

def lookupName (name : String) : Build Variable := do
  match name, sc.lib with
  | "arg", some lib => return ⟨.score lib.arg, none⟩
  | "ret", some lib => return ⟨.score lib.ret, none⟩
  | "arg", none | "ret", none => throw (.unsupported s!"{name} needs the standard library")
  | "self", _ =>
    match sc.self with
    | some v => return v
    | none => throw (.undefined "self is only defined in methods")
  | _, _ =>
    match sc.vars.find? name with
    | some v => return v
    | none => throw (hinted (.undefined s!"undefined variable {quote name}") name sc.vars.keys)

def lookup (t : Term) : Build Variable :=
  match t.kind with
  | .ident name => lookupName sc name
  | _ => throw (.badSyntax s!"expected a variable, got {t.display}")

def memberOf (object name : String) : Build Operand := do
  let v ← lookupName sc object
  match v.cls with
  | none => throw (.incompatible s!"{object} does not hold an object")
  | some c =>
    match c.member? name with
    | none => throw (hinted (.undefined s!"class {c.name} has no attribute {quote name}") name
        c.members.keys)
    | some type =>
      let access ← sc.lib.mapM Library.access
      return .member access v.value name type

def variable_ (t : Term) : Build Operand := do
  match t.member? with
  | some (object, name) => memberOf sc object name
  | none => return (← lookup sc t).value

def intLiteral (n : Int64) (want : DataType) : Except Problem Operand :=
  let within (lo hi : Int) (v : Operand) : Except Problem Operand :=
    if n.toInt < lo ∨ hi < n.toInt then
      .error (.incompatible s!"{n.toInt} does not fit in a {want.render}")
    else .ok v
  match want.kind with
  | .byte => within (-128) 127 (.byte n.toInt)
  | .short => within (-32768) 32767 (.short n.toInt)
  | .long => .ok (.long n.toInt)
  | .float => .ok (.float n.toFloat32)
  | .double | .floatingPoint => .ok (.double n.toFloat)
  | _ =>
    if n.toInt < -2147483648 ∨ 2147483647 < n.toInt then
      .error (.incompatible s!"{n.toInt} does not fit in an int")
    else .ok (.int n.toInt)

def operand (t : Term) (want : DataType) : Build Operand := do
  match t.kind with
  | .int n => intLiteral n want
  | .float x => return if want.kind = .float then .float x.toFloat32 else .double x
  | .string s => return .string s
  | .ident _ => variable_ sc t

/-- The range of the numbers that compare with `n`. -/
def literalRange (op : String) (n : Int64) : Except Problem String :=
  match op with
  | "<" => .ok s!"..{(n - 1).toInt}"
  | "<=" => .ok s!"..{n.toInt}"
  | "=" => .ok s!"{n.toInt}"
  | ">=" => .ok s!"{n.toInt}.."
  | ">" => .ok s!"{(n + 1).toInt}.."
  | _ => .error (.unsupported s!"unknown comparison {quote op}")

def comparison (t : Test) (score : Score) (right : Term) : Build Condition := do
  match right.kind with
  | .int n => return .within score (← literalRange t.op n)
  | .ident _ =>
    match ← variable_ sc right with
    | .score other => return .compare score t.op other
    | _ => throw (.unsupported s!"condition {t.display} needs a score variable on the right")
  | _ => throw (.unsupported s!"condition {t.display} compares with a {right.display}")

def condition (t : Test) : Build Condition := do
  let left ← variable_ sc t.left
  if t.op = "exists" then
    match left with
    | .slot s => return .present s
    | _ => throw (.unsupported
        s!"exists needs a storage, entity or block variable, got {t.left.display}")
  else match left with
    | .score s =>
      if t.op = "matches" then return .within s t.range
      else match t.right with
        | some right => comparison sc t s right
        | none => throw (.unsupported s!"condition {t.display} compares with nothing")
    | _ => throw (.unsupported s!"condition {t.display} needs a score variable on the left")

/-- The function that a call names, as `function` or `class.method`. -/
def callee (name : String) : Build NodeId := do
  match cut? '.' name with
  | none =>
    match sc.functions.find? name with
    | some fn => return fn
    | none => throw (hinted (.undefinedFunction s!"undefined function {quote name}") name
        sc.functions.keys)
  | some (cls, method) =>
    match sc.classes.find? cls with
    | none => throw (hinted (.undefinedFunction s!"undefined class {quote cls}") cls sc.classNames)
    | some c =>
      let s ← get
      match Graph.get? s c.node method with
      | none => throw (.undefinedFunction s!"class {cls} has no method {quote method}")
      | some fn =>
        match (s.node fn).role with
        | .function _ => return fn
        | _ => throw (.undefinedFunction s!"{method} of class {cls} is not a method")

def parts : List Piece → Build (List Part)
  | [] => return []
  | .text _ s :: ps => return .text s :: (← parts ps)
  | .style _ values :: ps => do
    let changes : Dict (Option Datum) := values.map fun (k, v) =>
      (k, match v with
        | .null => none
        | v => some v)
    return .style changes :: (← parts ps)
  | .term t :: ps => do
    let v ← operand sc t .any
    return .value v :: (← parts ps)

end Terms

def compileCreate (sc : Scope) (fn : NodeId) (cls : String) (var : Term) : Build Unit := do
  match sc.lib with
  | none => throw (.unsupported "objects need the standard library")
  | some lib =>
    match sc.classes.find? cls with
    | none => throw (hinted (.undefined s!"undefined class {quote cls}") cls sc.classNames)
    | some c =>
      let v ← lookup sc var
      match v.cls with
      | some held =>
        if ¬ Graph.isSubclass (← get) c.node held.node then
          throw (.incompatible
            s!"cannot store a {cls} object in {var.name}, which holds {held.name} objects")
      | none => pure ()
      Library.newObject lib.toRegisters fn c.node v.value

def compileCall (sc : Scope) (fn : NodeId) (name : String) (arg : Option Term) : Build Unit := do
  let target ← callee sc name
  match arg, sc.lib with
  | none, _ =>
    let entry := (← Graph.function target).entry
    Graph.call fn (some ⟨← Graph.path entry, none⟩)
  | some _, none => throw (.unsupported "call arguments need the standard library")
  | some a, some lib =>
    let v ← operand sc a .any
    lib.call fn target (some v)

def compileOp (sc : Scope) (fn : NodeId) (var : Term) (operator : String) (value : Term) :
    Build Unit := do
  match ← variable_ sc var with
  | .score s =>
    Transfer.checkOperation operator
    let other ← operand sc value .int
    Graph.add fn (← Transfer.exprOp s operator other)
  | _ => throw (.unsupported s!"operation {operator} needs a score variable, got {var.name}")

mutual

def compileStmt (sc : Scope) (fn : NodeId) : Stmt → Build Unit
  | .set pos var value => locate sc pos do
    let dst ← variable_ sc var
    let src ← operand sc value dst.type
    Graph.move fn src dst
  | .add pos var value => locate sc pos do
    let dst ← variable_ sc var
    let delta ← operand sc value dst.type
    Graph.addInPlace fn dst delta
  | .op pos var operator value => locate sc pos (compileOp sc fn var operator value)
  | .loop pos test body => locate sc pos do
    let cond ← condition sc test
    let inner ← Graph.loop fn cond
    compileBody sc inner body
    Graph.finish inner
  | .branch pos test yes no => locate sc pos do
    let cond ← condition sc test
    match no with
    | none =>
      let inner ← Graph.ifThen fn cond
      compileBody sc inner yes
      Graph.finish inner
    | some no =>
      let (inner, other) ← Graph.branch fn cond true
      compileBody sc inner yes
      Graph.finish inner
      match other with
      | none => pure ()
      | some other =>
        compileBody sc other no
        Graph.finish other
  | .call pos name arg => locate sc pos (compileCall sc fn name arg)
  | .leave pos none => locate sc pos (Graph.leave fn none)
  | .leave pos (some value) => locate sc pos do
    let v ← operand sc value .any
    Graph.leave fn (some v)
  | .command pos text => locate sc pos (Graph.add fn [.text text])
  | .print pos target pieces => locate sc pos do
    let ps ← parts sc pieces
    Graph.add fn (← Message.print sc.scratch (.lit target) ps)
  | .create pos cls var => locate sc pos (compileCreate sc fn cls var)

/-- Adds statements to a function; nothing may follow a return. -/
def compileBody (sc : Scope) (fn : NodeId) : List Stmt → Build Unit
  | [] => pure ()
  | s :: ss => do
    compileStmt sc fn s
    match s, ss with
    | .leave .., next :: _ =>
      failAt sc next.pos (.badSyntax "statement after return is unreachable")
    | _, _ => compileBody sc fn ss

end

/-- Fills a function. Methods get the number of their object in the argument register. -/
def fillFunction (sc : Scope) (decl : FunctionDecl) (fn : NodeId) (cls : Option Family) :
    Build Unit := do
  let self ← match cls, sc.lib with
    | some c, some lib =>
      let self ← Graph.score fn "self"
      Graph.move fn (.score lib.arg) (.score self)
      pure (some ⟨.score self, some c⟩)
    | _, _ => pure none
  compileBody { sc with self } fn decl.body

def compileFunction (sc : Scope) (decl : FunctionDecl) (fn : NodeId) (cls : Option Family) :
    Build (Option Problem) := do
  Synth.enter (match cls with
    | none => "function " ++ decl.name
    | some c => s!"method {c.name}.{decl.name}")
  let found ← tryCatch (do locate sc decl.pos (fillFunction sc decl fn cls); pure none)
    fun p => pure (some p)
  Graph.finish fn
  Synth.exit
  return found

/-- A tag by name; without a namespace it is one of the program. -/
def tagOf (sc : Scope) (name : String) : Build Path :=
  if name.toList.contains ':' then return externalTag name else Graph.tagPath sc.root name

def tagsOf (sc : Scope) : List String → Build (List Path)
  | [] => return []
  | t :: ts => do
    let p ← tagOf sc t
    return p :: (← tagsOf sc ts)

def declareFunction (sc : Scope) (parent : NodeId) (decl : FunctionDecl) : Build NodeId := do
  Graph.createFunction parent decl.name decl.name (← tagsOf sc decl.tags) decl.description

def declareMethods (sc : Scope) (decl : ClassDecl) (cls : NodeId) :
    (seen : List String) → List FunctionDecl → Build Unit
  | _, [] => pure ()
  | seen, fn :: fns => do
    if seen.contains fn.name then
      failAt sc fn.pos (.badSyntax s!"method {decl.name}.{fn.name} redefined")
    let _ ← declareFunction sc cls fn
    declareMethods sc decl cls (fn.name :: seen) fns

/-- The classes that a class inherits from: their entities, and their members. -/
def parentsOf (sc : Scope) (decl : ClassDecl) :
    List String → Build (List NodeId × List (Dict DataType))
  | [] => return ([], [])
  | name :: names => do
    let (node, lineage) ←
      if name = "object" then
        match sc.lib with
        | none =>
          failAt sc decl.pos (.unsupported
            s!"class {decl.name} inherits object, which needs the standard library")
        | some lib => pure (lib.object.base, [])
      else match sc.classes.find? name with
        | some c => pure (c.node, c.lineage)
        | none =>
          failAt sc decl.pos
            (hinted (.undefined s!"class {decl.name} inherits unknown class {quote name}") name
              sc.classNames)
    let (nodes, lineages) ← parentsOf sc decl names
    return (node :: nodes, lineage ++ lineages)

def membersOf (sc : Scope) (decl : ClassDecl) : Dict String → Build (Dict DataType)
  | [] => return []
  | (name, type) :: rest => do
    match DataType.parse type with
    | .error e => failAt sc decl.pos (.badSyntax s!"attribute {decl.name}.{name}: {e.message}")
    | .ok t => return (name, t) :: (← membersOf sc decl rest)

def declareClass (sc : Scope) (decl : ClassDecl) : Build Scope := do
  if sc.classes.has decl.name then
    failAt sc decl.pos (.badSyntax s!"class {quote decl.name} redefined")
  let (parents, lineage) ← parentsOf sc decl decl.inherits
  let members ← membersOf sc decl decl.members
  let node ← Graph.createClass sc.root decl.name parents
  declareMethods sc decl node [] decl.functions
  return { sc with
    classes := sc.classes.insert decl.name ⟨decl.name, node, members, members :: lineage⟩ }

def declareClasses (sc : Scope) : List ClassDecl → Build Scope
  | [] => return sc
  | d :: ds => do declareClasses (← declareClass sc d) ds

def scoreVariable (sc : Scope) (decl : VarDecl) : Build Variable := do
  let usual := (← get).objective
  let objective := if decl.objective.isEmpty then usual else .lit decl.objective
  let value := Operand.score (← Graph.scoreIn sc.root decl.name objective)
  if decl.cls.isEmpty then return ⟨value, none⟩
  else match sc.classes.find? decl.cls with
    | some c => return ⟨value, some c⟩
    | none =>
      failAt sc decl.pos
        (hinted (.undefined s!"variable {decl.name} holds unknown class {quote decl.cls}") decl.cls
          sc.classNames)

def slotVariable (sc : Scope) (decl : VarDecl) : Build Variable := do
  match DataType.parse decl.type, Container.parse? decl.kind.name with
  | .error e, _ => failAt sc decl.pos (.badSyntax s!"variable {decl.name}: {e.message}")
  | .ok _, none =>
    failAt sc decl.pos (.badSyntax s!"variable {decl.name}: {Container.unknown decl.kind.name}")
  | .ok type, some container => return ⟨.slot ⟨container, .lit decl.target, decl.path, type⟩, none⟩

def declareVar (sc : Scope) (decl : VarDecl) : Build Scope := do
  if reservedNames.contains decl.name then
    failAt sc decl.pos
      { Problem.invalidName s!"variable name {quote decl.name} is reserved" with code := "E1004" }
  let v ← if decl.kind = .score then scoreVariable sc decl else slotVariable sc decl
  return { sc with vars := sc.vars.insert decl.name v }

def declareVars (sc : Scope) : List VarDecl → Build Scope
  | [] => return sc
  | d :: ds => do declareVars (← declareVar sc d) ds

def declareFunctions (sc : Scope) : List FunctionDecl → Build Scope
  | [] => return sc
  | d :: ds => do
    if sc.functions.has d.name then
      failAt sc d.pos (.badSyntax s!"function {quote d.name} redefined")
    if sc.classes.has d.name then
      failAt sc d.pos (.badSyntax s!"function {quote d.name} has the name of a class")
    let fn ← declareFunction sc sc.root d
    declareFunctions { sc with functions := sc.functions.insert d.name fn } ds

def isRootChar (c : Char) : Bool :=
  ('a' ≤ c && c ≤ 'z') || ('0' ≤ c && c ≤ '9') || c == '_' || c == '.' || c == '-'

/-- Makes the root and all declarations. -/
def declare (sc : Scope) (p : Program) : Build Scope := do
  if p.root.isEmpty ∨ ¬ p.root.toList.all isRootChar then
    failAt sc p.pos (.invalidName
      s!"invalid namespace {quote p.root}: use lowercase letters, digits, '_', '-' and '.'")
  if sc.lib.any (·.name == p.root) then
    failAt sc p.pos (.invalidName s!"namespace {quote p.root} is taken by the standard library")
  let root ← Graph.root p.root
  let sc ← declareClasses { sc with root } p.classes
  let sc ← declareVars sc p.vars
  declareFunctions sc p.functions

def jobs (s : Session) (sc : Scope) (p : Program) :
    List (FunctionDecl × NodeId × Option Family) :=
  p.functions.filterMap (fun f => (sc.functions.find? f.name).map (f, ·, none)) ++
    p.classes.flatMap fun c =>
      match sc.classes.find? c.name with
      | none => []
      | some info => c.functions.filterMap fun f =>
          ((s.node info.node).child? f.name).map (f, ·, some info)

def fillAll (sc : Scope) : List (FunctionDecl × NodeId × Option Family) → Build (List Problem)
  | [] => return []
  | (decl, fn, cls) :: rest => do
    let found ← compileFunction sc decl fn cls
    return found.toList ++ (← fillAll sc rest)

/-- What becomes of the problems of all functions; a fatal one leaves no room for others. -/
def verdict (problems : List Problem) : Option Failure :=
  match problems.find? (·.fatal) with
  | some p => some (.stopped (.crash p.message))
  | none => Failure.ofProblems? problems

/-- Compiles a program to a new root. A cancelled compilation stops before the first function. -/
def program (lib : Option Library) (filename : String) (cancelled : Bool) (p : Program) :
    ExceptT Failure (StateM Session) NodeId := fun s =>
  match (declare { lib, filename } p).run s with
  | (.error e, s) => (.error (.problem e), s)
  | (.ok sc, s) =>
    let todo := jobs s sc p
    if cancelled ∧ ¬ todo.isEmpty then (.error (.plain "context canceled"), s)
    else match (fillAll sc todo).run s with
      | (.error e, s) => (.error (.problem e), s)
      | (.ok problems, s) =>
        match verdict problems, s.failure with
        | some f, _ => (.error f, s)
        | none, some e => (.error (.problem e), s)
        | none, none => (.ok sc.root, s)

def noSession : Failure := .problem (.invariant "compiler needs an environment")

end CommandPack.Compile
