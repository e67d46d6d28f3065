import CommandPack.Library.Basic

/-!
The stacks of the library: one function for each operation and stack, made on demand.
-/

namespace CommandPack

namespace Stacks

def slot (s : Stacks) (n : Int) : Slot := .inStorage (.sym s.storage) s!"stack{n}" .list

def top (s : Stacks) (n : Int) (type : DataType) : Slot :=
  .inStorage (.sym s.storage) s!"stack{n}[-1]" type

inductive Action where
  | push | pop | peek | peekAny

def Action.description (n : Int) : Action → String
  | push => s!"Push the argument register onto stack {n}."
  | pop => s!"Pop the top of stack {n} into the return register."
  | peek => s!"Copy the top of stack {n} into the return register."
  | peekAny => s!"Copy the top of stack {n}, whatever its type, into the stack return slot."

def Action.template (s : Stacks) : Action → NodeId
  | push => s.push
  | pop => s.pop
  | peek => s.peek
  | peekAny => s.peekAny

def Action.fill (s : Stacks) (r : Registers) (fn : NodeId) (n : Int) : Action → Build Unit
  | push => do
    Graph.add fn [.literal s!"data modify storage %s stack{n} append value 0" [.sym s.storage]]
    Graph.move fn (.score r.arg) (.slot (s.top n .int))
  | pop => do
    Graph.move fn (.slot (s.top n .int)) (.score r.ret)
    Graph.add fn [.literal s!"data remove storage %s stack{n}[-1]" [.sym s.storage]]
  | peek => Graph.move fn (.slot (s.top n .int)) (.score r.ret)
  | peekAny => Graph.move fn (.slot (s.top n .any)) (.slot s.ret)

def get (s : Stacks) (r : Registers) (a : Action) (n : Int) : Build NodeId := do
  let template := a.template s
  Graph.instantiate template [("stack", .int n)] do
    if n < 0 then
      throw (.invariant
        s!"stack template {(← Graph.node template).name} needs a non-negative int stack argument, got {n}")
    let name := s!"stack{n}"
    let fn ← Graph.createFunction template name name [] (a.description n)
    a.fill s r fn n
    return some fn

end Stacks

namespace Library

def installStacks (r : Registers) : Build Stacks := do
  let group ← Graph.createGroup r.root "stack"
  let storage ← Synth.symbol .path "" (some (← Graph.path group)) []
  let push ← Graph.createTemplate group "push"
  let pop ← Graph.createTemplate group "pop"
  let peek ← Graph.createTemplate group "peek"
  let peekAny ← Graph.createTemplate group "peek_any"
  return { group, storage, ret := .inStorage (.sym storage) "ret" .any, push, pop, peek, peekAny }

end Library

end CommandPack
