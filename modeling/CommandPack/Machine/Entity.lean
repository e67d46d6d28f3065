import CommandPack.Machine.Data

/-!
The commands that make, remove, mark and move entities.
-/

namespace CommandPack.Machine

open Text

/-- The data a summoned entity starts with: written tags are added, the written position is
ignored and everything else is taken over. -/
def Entity.withData (e : Entity) (fields : Dict Tag) : Entity :=
  fields.foldl (fun e (k, t) =>
    if k = "Pos" then e
    else if k = "Tags" then
      (((t.items?).getD []).filterMap Tag.string?).foldl
        (fun e tag => if e.tags.contains tag then e else e.addTag tag) e
    else { e with data := Dict.insert k t e.data }) e

def summon (site : Site) (actor : Actor) : List String → Action Result
  | [] => fault site (.expected "summon <entity> [<x> <y> <z>] [<nbt>]")
  | type :: args => do
    let (pos, rest) ← match args with
      | x :: y :: z :: rest => do pure (← positionOrFault site actor x y z, rest)
      | rest => pure (actor.pos, rest)
    let id := (← get).lastEntity + 1
    modify fun m => { m with lastEntity := id }
    let e := Entity.summoned id type pos
    let e ← if rest.isEmpty then pure e else
      match ← tagOrFault site rest with
      | .compound fields => pure (e.withData fields)
      | _ => fault site .summonNeedsCompound
    modify fun m => { m with entities := m.entities ++ [e] }
    return ⟨1, true⟩

def kill (site : Site) (actor : Actor) (args : List String) : Action Result := do
  let es ← selectOrFault site actor (args.headD "@s")
  let ids := es.map (·.id)
  modify fun m => { m with
    entities := m.entities.map fun e => if ids.contains e.id then { e with alive := false } else e }
  return ⟨Int32.ofNat es.length, !es.isEmpty⟩

def changeTags (site : Site) (word tag : String) (es : List Entity) : Action Nat := do
  let mut changed := 0
  for e in es do
    if word = "add" then
      if !e.tags.contains tag then
        modify fun m => m.updateEntity e.id (·.addTag tag)
        changed := changed + 1
    else if word = "remove" then
      if e.tags.contains tag then
        modify fun m => m.updateEntity e.id (·.removeTag tag)
        changed := changed + 1
    else fault site (.unknownTagCommand word)
  return changed

def tag (site : Site) (actor : Actor) : List String → Action Result
  | targets :: word :: args => do
    let es ← selectOrFault site actor targets
    if word = "list" then
      return ⟨Int32.ofNat (es.foldl (fun n e => n + e.tags.length) 0), true⟩
    match args with
    | name :: _ => do
      let changed ← changeTags site word name es
      return ⟨Int32.ofNat changed, changed > 0⟩
    | [] => fault site (.expected "tag <targets> add|remove <name>")
  | _ => fault site (.expected "tag <targets> add|remove|list [<name>]")

/-- Where a teleport goes: the position of the one entity that a selector chooses, or
coordinates. None if the selector does not choose exactly one. -/
def destination (site : Site) (actor : Actor) : List String → Action (Option Position)
  | [s] => do
    if !isSelector s then fault site .teleportDestination
    match ← selectOrFault site actor s with
    | [e] => return some e.pos
    | _ => return none
  | x :: y :: z :: _ => return some (← positionOrFault site actor x y z)
  | _ => fault site .teleportDestination

def teleport (site : Site) (actor : Actor) (args : List String) : Action Result := do
  let (ids, dest) ← match args with
    | s :: rest =>
      if isSelector s ∧ ¬ rest.isEmpty then do
        pure ((← selectOrFault site actor s).map (·.id), rest)
      else if args.length = 3 ∧ ¬ isSelector s then pure (actor.self.toList, args)
      else fault site .teleportUsage
    | [] => fault site .teleportUsage
  match ← destination site actor dest with
  | none => return .failed
  | some pos =>
    for id in ids do
      modify fun m => m.updateEntity id (·.setPos pos)
    return ⟨Int32.ofNat ids.length, !ids.isEmpty⟩

end CommandPack.Machine
