import CommandPack.Graph.Basic

/-!
Functions: instructions are added at the cursor until the function is ended.
-/

namespace CommandPack.Graph

def functionOf (n : Node) : FunctionState :=
  match n.role with
  | .function f => f
  | _ => default

def function (id : NodeId) : Build FunctionState := return functionOf (← node id)

def blockOf (n : Node) : BlockState :=
  match n.role with
  | .block b => b
  | _ => {}

def updateFunction (id : NodeId) (f : FunctionState → FunctionState) : Build Unit :=
  update id fun n => { n with role := .function (f (functionOf n)) }

def updateBlock (id : NodeId) (f : BlockState → BlockState) : Build Unit :=
  update id fun n => { n with role := .block (f (blockOf n)) }

def append (block : NodeId) (cmds : List Instruction) : Build Unit :=
  updateBlock block fun b => { b with commands := b.commands ++ cmds }

def describe (fn : NodeId) (description : String) : Build Unit := do
  updateBlock (← function fn).entry fun b => { b with description }

/-- A function that was ended takes no more instructions. -/
def checkOpen (fn : NodeId) : Build Unit := do
  if (← function fn).ended then
    throw (.invariant s!"function {(← path fn).joined} was already ended")

def add (fn : NodeId) (cmds : List Instruction) : Build Unit := do
  checkOpen fn
  append (← function fn).current cmds

def comment (fn : NodeId) (text : String) : Build Unit := add fn [.comment text]

def call (fn : NodeId) (callee : Option Target) : Build Unit := do
  add fn [← Instruction.checkedCall callee]

def callOf (block : NodeId) : Build Instruction := return .call ⟨← path block, none⟩

def move (fn : NodeId) (src dst : Operand) : Build Unit := do
  checkOpen fn
  add fn (← Transfer.move src dst)

def addInPlace (fn : NodeId) (dst delta : Operand) : Build Unit := do
  checkOpen fn
  add fn (← Transfer.addInPlace dst delta)

def finish (fn : NodeId) : Build Unit := do
  let f ← function fn
  if ¬ f.ended then
    updateBlock f.current fun b => { b with continuation := f.continuation }
    updateFunction fn fun f => { f with ended := true }

/-- Moves a value, if there is one, to where returned values go, and drops the continuation, so that
nothing around the function goes on. -/
def leave (fn : NodeId) (value : Option Operand) : Build Unit := do
  checkOpen fn
  match value with
  | none => pure ()
  | some v =>
    match (← get).returns with
    | none => throw (.invariant
        s!"function {(← path fn).joined} returns a value but no return register is installed")
    | some r => move fn v r
  updateFunction fn fun f => { f with continuation := none }

end CommandPack.Graph
