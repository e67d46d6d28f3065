import CommandPack.Graph.Function

/-!
Listings: the functions of a graph as text, with their tags.
-/

namespace CommandPack

open Text

structure Function where
  path : String
  parts : Path
  description : String := ""
  tags : List String := []
  lines : List String := []

/-- The function as a file: its description as comments, then its lines. -/
def Function.text (f : Function) : String :=
  let header := if f.description.isEmpty then ""
    else String.join ((split '\n' f.description).map fun l => "# " ++ l ++ "\n") ++ "\n"
  header ++ String.join (f.lines.map (· ++ "\n"))

structure Listing where
  functions : List Function := []
  /-- The members of each tag in the order of the functions. -/
  tags : Dict (List String) := []

namespace Listing

/-- The function of a path; of several the last. -/
def find? (l : Listing) (path : String) : Option Function :=
  l.functions.reverse.find? (·.path == path)

def namespaces (l : Listing) : List String :=
  Dict.keys (Dict.ofList (l.functions.filterMap fun f => f.parts.head?.map (·, ())))

def addTag (path : String) (tags : Dict (List String)) (tag : String) : Dict (List String) :=
  tags.insert tag ((tags.find? tag).getD [] ++ [path])

def ofFunctions (fs : List Function) : Listing :=
  { functions := fs, tags := fs.foldl (fun tags f => f.tags.foldl (addTag f.path) tags) [] }

def dropRepeats : List Symbol → List Symbol
  | a :: b :: ss => if a.id = b.id then dropRepeats (b :: ss) else a :: dropRepeats (b :: ss)
  | ss => ss

/-- The symbols that blocks mention, each once, in the order they were made. -/
def symbolsOf (blocks : List BlockState) : List Symbol :=
  let all := blocks.flatMap fun b => Instruction.symbolsOf b.commands.toList
  dropRepeats (all.mergeSort fun a b => decide (a.id ≤ b.id))

def resolveAll (t : SymbolTable) : List Symbol → List Problem × SymbolTable
  | [] => ([], t)
  | s :: ss =>
    let (r, t) := (SymbolTable.resolve (.sym s)).run t
    let (ps, t) := resolveAll t ss
    (match r with
      | .ok _ => ps
      | .error p => p :: ps, t)

/-- A block as text, with the call of its continuation at the end. -/
def renderBlock (s : Session) (id : NodeId) : Render Function := do
  let n := s.node id
  let b := Graph.blockOf n
  let lines ← Instruction.renderAll b.commands.toList
  let next := b.continuation.toList.map fun c => "function " ++ (s.node c).path.joined
  return {
    path := n.path.joined
    parts := n.path
    description := b.description
    tags := b.tags.map Path.joined
    lines := lines ++ next }

def renderBlocks (s : Session) (t : SymbolTable) : List NodeId → List Failure × List Function
  | [] => ([], [])
  | id :: ids =>
    let (r, t) := (renderBlock s id).run t
    let (es, fs) := renderBlocks s t ids
    match r with
    | .ok f => (es, f :: fs)
    | .error e => (e :: es, fs)

/-- The functions below the roots as text. Symbols get their texts in the order they were made, so
the same graph has the same names. -/
def emit (s : Session) (roots : List NodeId) (reserved : List String) : Except Failure Listing :=
  let found := roots.map (Graph.blocks s)
  let problems := found.flatMap (·.2)
  let blocks := found.flatMap (·.1)
  if ¬ problems.isEmpty then .error (.several (problems.map .problem))
  else
    let table := SymbolTable.reserve {} reserved
    let (problems, table) :=
      resolveAll table (symbolsOf (blocks.map fun id => Graph.blockOf (s.node id)))
    if ¬ problems.isEmpty then .error (.several (problems.map .problem))
    else match renderBlocks s table blocks with
      | ([], fs) => .ok (ofFunctions fs)
      | (es, _) => .error (.collect es)

end Listing

end CommandPack
