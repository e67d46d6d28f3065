import CommandPack.Library.Basic

/-!
The objects of the library: making and fetching them, and counting references.
-/

namespace CommandPack

open Text

def untagAll (tag : Symbol) : List Instruction :=
  [.comment "remove the tag from all entities", .literal "tag @e remove %s" [.sym tag]]

/-- A new function that runs when a pack is loaded; it makes objectives. -/
def Registers.fillLoad (r : Registers) (fn : NodeId) (purpose : String) (objectives : List Symbol)
    (greeting : Option String) : Build Unit := do
  Graph.add fn (.comment purpose ::
    objectives.map fun o => .literal "scoreboard objectives add %s dummy" [.sym o])
  match greeting with
  | some text => r.log fn [.text text]
  | none => pure ()
  Graph.finish fn

namespace Library

def newObjectBody (idObjective refCount tag tempTag fetchedTag : Symbol) (counter : Score) :
    Synth (List Instruction) := do
  let increment ← Transfer.addConst (.score counter) .int "1"
  return untagAll tempTag ++ untagAll fetchedTag ++
    [.comment "increment the object id counter"] ++ increment ++
    [.comment "summon a marker with the temp tag",
      .literal "summon minecraft:marker 0 0 0 \x7bTags:[\"%s\",\"%s\",\"%s\"]\x7d"
        [.sym tag, .sym tempTag, .sym fetchedTag],
      .comment "set the object id and reference count of the marker",
      .literal "scoreboard players operation @e[tag=%s] %s = %s %s"
        [.sym tempTag, .sym idObjective, counter.player, counter.objective],
      .literal "scoreboard players set @e[tag=%s] %s 1" [.sym tempTag, .sym refCount]]

def define (parent : NodeId) (name description : String) (body : NodeId → Build Unit) :
    Build NodeId := do
  let fn ← Graph.createFunction parent name name [] description
  body fn
  Graph.finish fn
  return fn

def installObjects (r : Registers) (greeting : Bool) : Build Objects := do
  let group ← Graph.createGroup r.root "object"
  let groupPath := some (← Graph.path group)
  let idObjective ← Synth.symbol .objective "id" groupPath []
  let counter ← Graph.score group "obj_id_counter"
  let fetchedTag ← Synth.symbol .tag "object_ret" groupPath []
  let fetched ← Synth.symbol .composite "@e[tag=%s]" none [.sym fetchedTag]
  let load ← Graph.createFunction group "load" "load" [loadTag] "Create the object objectives."
  let counting ← Graph.createGroup group "garbage_collection"
  let refCount ← Synth.symbol .objective "reference_count" (some (← Graph.path counting)) []
  r.fillLoad load "create the object id and reference count objectives" [idObjective, refCount]
    (if greeting then some " * Loaded object library!" else none)
  let base ← Graph.createClass group "object" []
  let basePath := some (← Graph.path base)
  let tag ← Synth.symbol .tag "object" basePath []
  let tempTag ← Synth.symbol .tag "temp" basePath []
  let _ ← define base "__new__" "Create a new object and return its object id." fun fn => do
    Graph.add fn (← newObjectBody idObjective refCount tag tempTag fetchedTag counter)
    Graph.leave fn (some (.score counter))
  let _ ← define base "__init__" "Initialize an object. Classes override this function."
    fun _ => pure ()
  let fetch ← define group "fetch_object"
    "Give the object whose id is in the argument register the return tag." fun fn =>
      Graph.add fn (untagAll fetchedTag ++ [.comment "give the selected entity the tag",
        .literal "execute as @e[tag=%s] if score @s %s = %s %s run tag @s add %s"
          [.sym tag, .sym idObjective, r.arg.player, r.arg.objective, .sym fetchedTag]])
  let _ ← define counting "increment_reference_count"
    "Increment the reference count of an object." fun fn => do
      r.call fn fetch none
      Graph.add fn [.literal "scoreboard players add @e[tag=%s] %s 1"
        [.sym fetchedTag, .sym refCount]]
  let _ ← define counting "decrement_reference_count"
    "Decrement the reference count of an object." fun fn => do
      r.call fn fetch none
      Graph.add fn [.literal "scoreboard players remove @e[tag=%s] %s 1"
        [.sym fetchedTag, .sym refCount]]
  let _ ← define counting "garbage_collect" "Kill every object without references." fun fn =>
    Graph.add fn [.literal "execute as @e[tag=%s] unless score @s %s matches 1.. run kill @s"
      [.sym tag, .sym refCount]]
  return { group, idObjective, refCount, counter, tag, fetchedTag, fetched, base, fetch }

def method (cls : NodeId) (name : String) : Build NodeId := do
  let s ← get
  match Graph.get? s cls name with
  | none => throw (.undefinedFunction
      s!"class {(s.node cls).path.joined} has no method {quote name}")
  | some fn =>
    match (s.node fn).role with
    | .function _ => return fn
    | _ => throw (.invariant s!"{name} of class {(s.node cls).path.joined} is not a function")

/-- Adds what makes an object of a class, keeps its number in `target` and runs the class's
initialisation with it. -/
def newObject (r : Registers) (caller cls : NodeId) (target : Operand) : Build Unit := do
  let make ← method cls "__new__"
  let init ← method cls "__init__"
  r.call caller make none
  Graph.move caller (.score r.ret) target
  r.call caller init (some target)

def access (lib : Library) : Build ObjectAccess := do
  let entry := (← Graph.function lib.object.fetch).entry
  return ⟨lib.arg, ← Graph.path entry, .sym lib.object.fetched⟩

end Library

end CommandPack
