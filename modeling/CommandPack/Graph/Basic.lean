import CommandPack.Transfer.Arithmetic
import CommandPack.Message

/-!
The graph of a program: namespaces that hold classes, templates, functions and blocks. An entity is
made below its parent and never removed.
-/

namespace CommandPack

open Text

abbrev NodeId := Nat

/-- A function: a group of blocks with an entry and a cursor for new instructions. -/
structure FunctionState where
  entry : NodeId
  current : NodeId
  continuation : Option NodeId := none
  ended : Bool := false
  /-- May the function be entered again while an earlier call of it is active? -/
  reentrant : Bool := false
deriving Inhabited

/-- A block: one list of instructions. -/
structure BlockState where
  tags : List Path := []
  description : String := ""
  commands : Array Instruction := #[]
  continuation : Option NodeId := none

inductive Role where
  | group
  /-- A class with its parents, and all its ancestors in the order they are searched. -/
  | family (parents ancestors : List NodeId)
  | template (instances : List (String × NodeId))
  | function (f : FunctionState)
  | block (b : BlockState)

structure Node where
  name : String
  parent : Option NodeId := none
  path : Path := []
  /-- The children in the order they were made. -/
  children : List (String × NodeId) := []
  role : Role := .group

instance : Inhabited Node := ⟨{ name := "" }⟩

namespace Node

def child? (n : Node) (name : String) : Option NodeId := n.children.lookup name

/-- What a call of the node names. -/
def isContainer (n : Node) : Bool :=
  match n.role with
  | .block _ => false
  | _ => true

end Node

structure Session extends Scratch where
  objective : Name := .lit "dp"
  returns : Option Operand := none
  failure : Option Problem := none
  nodes : Array Node := #[]

def Session.node (s : Session) (id : NodeId) : Node := s.nodes.getD id default

abbrev Build := ExceptT Problem (StateM Session)

instance (priority := low) : MonadLift Synth Build where
  monadLift x := fun s =>
    let (r, scratch) := x s.toScratch
    (r, { s with toScratch := scratch })

def externalTag (text : String) : Path :=
  match cut? ':' text with
  | none => ["minecraft", text]
  | some (ns, rest) => ns :: split '/' rest

namespace Graph

def node (id : NodeId) : Build Node := return (← get).node id

def path (id : NodeId) : Build Path := return (← node id).path

def update (id : NodeId) (f : Node → Node) : Build Unit :=
  modify fun s => { s with nodes := s.nodes.modify id f }

/-- Records a failure unless there was one before. -/
def fail (p : Problem) : Build Unit :=
  modify fun s => { s with failure := s.failure <|> some p }

def attach (parent : NodeId) (name : String) (child : NodeId) : Build Unit := do
  let p ← node parent
  if (p.child? name).isSome then
    fail (.invariant s!"{p.path.joined} already has a child named {quote name}")
  else update parent fun p => { p with children := p.children ++ [(name, child)] }

def root (name : String) : Build NodeId := do
  let id := (← get).nodes.size
  modify fun s => { s with nodes := s.nodes.push { name, path := [name] } }
  return id

def create (parent : NodeId) (name : String) (role : Role) : Build NodeId := do
  let id := (← get).nodes.size
  let path := (← path parent) ++ [name]
  modify fun s => { s with nodes := s.nodes.push { name, parent := some parent, path, role } }
  attach parent name id
  return id

def createGroup (parent : NodeId) (name : String) : Build NodeId := create parent name .group

def createBlock (parent : NodeId) (name : String) (b : BlockState := {}) : Build NodeId :=
  create parent name (.block b)

def ancestors (n : Node) : List NodeId :=
  match n.role with
  | .family _ as => as
  | _ => []

/-- A new class. Its ancestors are its parents, each followed by its own. -/
def createClass (parent : NodeId) (name : String) (parents : List NodeId) : Build NodeId := do
  let s ← get
  let all := (parents.flatMap fun p => p :: ancestors (s.node p)).eraseDups
  create parent name (.family parents all)

def createTemplate (parent : NodeId) (name : String) : Build NodeId :=
  create parent name (.template [])

def createFunction (parent : NodeId) (name : String) (entryName : String)
    (tags : List Path) (description : String) : Build NodeId := do
  let entry := (← get).nodes.size + 1
  let f ← create parent name (.function { entry, current := entry })
  let _ ← createBlock f entryName { tags, description }
  return f

def tagPath (parent : NodeId) (name : String) : Build Path := return (← path parent) ++ [name]

def scoreIn (owner : NodeId) (player : String) (objective : Name) : Build Score := do
  let p ← path owner
  let s ← Synth.symbol .player player (some p) []
  return ⟨.sym s, objective⟩

def score (owner : NodeId) (player : String) : Build Score := do
  scoreIn owner player (← get).objective

/-- The child of a name; classes also have the children of their ancestors. -/
def get? (s : Session) (id : NodeId) (name : String) : Option NodeId :=
  (id :: ancestors (s.node id)).findSome? fun c => (s.node c).child? name

def follow? (s : Session) (id : NodeId) : List String → Option NodeId
  | [] => some id
  | name :: names =>
    if (s.node id).isContainer then
      match get? s id name with
      | some c => follow? s c names
      | none => none
    else none

/-- The entity at a path below a namespace, which is searched itself only. -/
def lookup? (s : Session) (id : NodeId) (path : String) : Option NodeId :=
  match split '/' path with
  | [] => none
  | name :: names => ((s.node id).child? name).bind (follow? s · names)

def isSubclass (s : Session) (id other : NodeId) : Bool :=
  id == other || (ancestors (s.node id)).contains other

def target (s : Session) (id : NodeId) : Target :=
  let n := s.node id
  match n.role with
  | .function f => ⟨n.path, some (s.node f.entry).path⟩
  | _ => ⟨n.path, none⟩

mutual

/-- The blocks below an entity in the order they were made, and the functions that were not ended.
The depth of the graph is at most its size. -/
def blocksBelow (s : Session) : (fuel : Nat) → NodeId → List NodeId × List Problem
  | 0, _ => ([], [])
  | fuel + 1, id => blocksOfAll s fuel ((s.node id).children.map (·.2))

def blocksOfAll (s : Session) (fuel : Nat) : List NodeId → List NodeId × List Problem
  | [] => ([], [])
  | id :: ids =>
    let n := s.node id
    let (bs, ps) := match n.role with
      | .block _ => ([id], [])
      | .function f =>
        let (bs, ps) := blocksBelow s fuel id
        (bs, if f.ended then ps
          else .invariant s!"function {n.path.joined} was not ended" :: ps)
      | _ => blocksBelow s fuel id
    let (bs', ps') := blocksOfAll s fuel ids
    (bs ++ bs', ps ++ ps')

end

/-- The blocks below an entity and all that is wrong with the graph. -/
def blocks (s : Session) (id : NodeId) : List NodeId × List Problem :=
  let (bs, ps) := blocksBelow s s.nodes.size id
  (bs, s.failure.toList ++ ps)

end Graph

end CommandPack
