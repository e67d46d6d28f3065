import CommandPack.Graph.Control
import CommandPack.Graph.Template

/-!
The library that programs are compiled against: objectives, registers, objects and stacks.
-/

namespace CommandPack

/-- Objects: markers with a tag, a number, and their members in the marker's data. -/
structure Objects where
  group : NodeId
  idObjective : Symbol
  refCount : Symbol
  counter : Score
  tag : Symbol
  /-- The tag of the object fetched last, and its selector. -/
  fetchedTag : Symbol
  fetched : Symbol
  /-- The class above all classes. -/
  base : NodeId
  /-- The function that fetches the object whose number is the argument. -/
  fetch : NodeId

/-- Stacks: lists in a storage, whose last element is the top. -/
structure Stacks where
  group : NodeId
  storage : Symbol
  ret : Slot
  push : NodeId
  pop : NodeId
  peek : NodeId
  peekAny : NodeId

/-- The parts of the library that others build on. -/
structure Registers where
  root : NodeId
  name : String
  objective : Symbol
  tempObjective : Symbol
  arg : Score
  ret : Score

structure Library extends Registers where
  object : Objects
  stack : Stacks

namespace Registers

/-- Where derived values are copied before they are shown. -/
def scratch (r : Registers) : Slot := .inStorage (.lit (r.name ++ ":data")) "text" .compound

def print (r : Registers) (fn : NodeId) (parts : List Part) : Build Unit := do
  Graph.add fn (← Message.print (some r.scratch) (.lit "@a") parts)

def log (r : Registers) (fn : NodeId) (parts : List Part) : Build Unit := do
  Graph.add fn (← Message.log (some r.scratch) r.name parts)

def call (r : Registers) (caller callee : NodeId) (arg : Option Operand) : Build Unit := do
  match arg with
  | some a => Graph.move caller a (.score r.arg)
  | none => pure ()
  let entry := (← Graph.function callee).entry
  Graph.call caller (some ⟨← Graph.path entry, none⟩)

end Registers

def loadTag : Path := ["minecraft", "load"]

end CommandPack
