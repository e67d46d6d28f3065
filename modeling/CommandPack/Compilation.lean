import CommandPack.Compile
import CommandPack.Document
import CommandPack.Listing

/-!
Compilations: programs compiled into one pack, with or without the library.
-/

namespace CommandPack

structure BuildOptions where
  objective : String := ""
  library : String := ""
  withoutLibrary : Bool := false
  greeting : Bool := false
  filename : String := ""

structure Compiled where
  root : NodeId
  functions : List String
  source : String

structure Compilation where
  session : Session := {}
  lib : Option Library := none
  roots : List NodeId := []
  programs : List Compiled := []
  filename : String := ""

namespace Compilation

def start (o : BuildOptions) : Except Problem Compilation :=
  if o.withoutLibrary then
    let session : Session := {}
    .ok {
      session :=
        if o.objective.isEmpty then session else { session with objective := .lit o.objective }
      filename := o.filename }
  else
    let options : Library.Options := { greeting := o.greeting }
    let options := if o.library.isEmpty then options else { options with name := o.library }
    let options := if o.objective.isEmpty then options else { options with objective := o.objective }
    match (Library.install options).run {} with
    | (.ok lib, session) => .ok { session, lib, filename := o.filename }
    | (.error p, _) => .error p

def perform {α : Type} (c : Compilation) (x : Build α) : Except Problem α × Compilation :=
  let (r, session) := x.run c.session
  (r, { c with session })

def addRoot (c : Compilation) (root : NodeId) : Compilation := { c with roots := c.roots ++ [root] }

/-- Adds a root with one finished function of the given commands. -/
def addByHand (c : Compilation) (root function : String) (cmds : List Instruction) : Compilation :=
  let (r, c) := c.perform do
    let root ← Graph.root root
    let f ← Graph.createFunction root function function [] ""
    Graph.add f cmds
    Graph.finish f
    return root
  match r with
  | .ok root => c.addRoot root
  | .error _ => c

def add (c : Compilation) (cancelled : Bool) (source : String) (p : Program) :
    Except Failure Compiled × Compilation :=
  match Compile.program c.lib c.filename cancelled p c.session with
  | (.error f, session) => (.error f, { c with session })
  | (.ok root, session) =>
    let compiled : Compiled := ⟨root, p.functions.map (·.name), source⟩
    (.ok compiled,
      { c with session, roots := c.roots ++ [root], programs := c.programs ++ [compiled] })

/-- Adds the program in what a reader gives for a source. -/
def addDocument (c : Compilation) (cancelled : Bool) (source : String) (d : Except String (Option Yaml.Node)) :
    Except Failure Compiled × Compilation :=
  match Document.programOf { file := c.filename } cancelled d with
  | .error f => (.error f, c)
  | .ok p => c.add cancelled source p

def addSource (c : Compilation) (cancelled : Bool) (source : String) :
    Except Failure Compiled × Compilation :=
  c.addDocument cancelled source (Yaml.load source)

def emit (c : Compilation) : Except Failure Listing :=
  Listing.emit c.session (c.lib.toList.map (·.root) ++ c.roots) []

def warnings (c : Compilation) : List Warning := c.session.warnings.toList

/-- Compiles one document. Gives the listing and the warnings. -/
def build (o : BuildOptions) (cancelled : Bool) (source : String) :
    Except Failure Listing × List Warning :=
  match start o with
  | .error p => (.error (.problem p), [])
  | .ok c =>
    let (r, c) := c.addSource cancelled source
    (r.bind fun _ => c.emit, c.warnings)

end Compilation

end CommandPack
