import CommandPack.Library.Object
import CommandPack.Library.Stack

/-!
Putting the library into a graph.
-/

namespace CommandPack.Library

structure Options where
  name : String := "dp_std"
  objective : String := "main"
  /-- Say so when the pack is loaded? -/
  greeting : Bool := true

def installDump (r : Registers) (o : Objects) : Build Unit := do
  let group ← Graph.createGroup r.root "debug"
  let fn ← Graph.createFunction group "objdump" "objdump" []
    "Print the data and tags of every object."
  let id ← Graph.score fn "obj_id"
  r.print fn [.style [("underlined", some (.bool true))], .text "All objects:",
    .style [("color", some (.string "gray")), ("underlined", some (.bool false))],
    .text " (ID: data, tags)"]
  Graph.move fn (.int 1) (.score id)
  let body ← Graph.loop fn (.compare id "<=" o.counter)
  r.call body o.fetch (some (.score id))
  r.print body [.style [("color", some (.string "light_purple"))], .value (.score id), .text ": ",
    .style [("color", none)], .value (.slot (.onEntity (.sym o.fetched) "data" .compound)),
    .style [("color", some (.string "gray"))], .text " (",
    .value (.slot (.onEntity (.sym o.fetched) "Tags" .list)), .text ")"]
  Graph.addInPlace body (.score id) (.int 1)
  Graph.finish body
  Graph.finish fn

/-- Makes the library in a new root. From then on its objectives and registers are in use. -/
def install (options : Options) : Build Library := do
  let root ← Graph.root options.name
  let owner := some (← Graph.path root)
  let objective ← Synth.symbol .objective options.objective owner []
  let tempObjective ← Synth.symbol .objective "temp" owner []
  modify fun s => { s with
    objective := .sym objective
    owner, tempObjective := .sym tempObjective, temps := [], marks := [] }
  let arg ← Graph.score root "arg"
  let ret ← Graph.score root "ret"
  modify fun s => { s with returns := some (.score ret) }
  let r : Registers := { root, name := options.name, objective, tempObjective, arg, ret }
  let load ← Graph.createFunction root "load" "load" [loadTag] "Create the library objectives."
  r.fillLoad load "create the objectives" [objective, tempObjective]
    (if options.greeting then some (" * Loaded " ++ options.name ++ "!") else none)
  let object ← installObjects r options.greeting
  let stack ← installStacks r
  installDump r object
  return { toRegisters := r, object, stack }

end CommandPack.Library
