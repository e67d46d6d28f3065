import CommandPack.Machine.Chat
import CommandPack.Machine.Entity
import CommandPack.Machine.Execute

/-!
Commands: what a list of words does. Calls of functions are left to a parameter, so that this
module needs no recursion but that of `execute … run`.
-/

namespace CommandPack.Machine

open Text

/-- How a function is called: its path, the calling function, and where and as whom. -/
abbrev Call := (path caller : String) → Site → Actor → Action Result

def gamerule (site : Site) : List String → Action Result
  | [] => fault site (.expected "gamerule <rule> [<value>]")
  | [name] => do
    let value := (Dict.find? name (← get).rules).getD ""
    return ⟨Int32.ofInt (Decimal.readClamped 64 value), true⟩
  | name :: value :: _ => do
    if name = "maxCommandChainLength" then
      match Decimal.readInt? 64 value with
      | some n => modify fun m => { m with maxCommands := n }
      | none => fault site (.invalidRule value name)
    modify fun m => { m with rules := Dict.insert name value m.rules }
    return ⟨1, true⟩

def callAll (call : Call) (site : Site) (actor : Actor) (paths : List String) : Action Unit := do
  for path in paths do
    let _ ← call path site.location.function site actor

def function (call : Call) (site : Site) (actor : Actor) : List String → Action Result
  | [] => fault site (.expected "function <name>")
  | name :: _ =>
    match dropLead? ['#'] name.toList with
    | none => call name site.location.function site actor
    | some tag => do
      match Dict.find? (String.ofList tag) (← get).tags with
      | none => fault site (.unknownTag name)
      | some paths =>
        callAll call site actor paths
        return ⟨Int32.ofNat paths.length, true⟩

def simple (call : Call) (site : Site) (actor : Actor) (word : String) (args : List String) :
    Action Result :=
  if word = "scoreboard" then scoreboard site actor args
  else if word = "data" then data site actor args
  else if word = "function" then function call site actor args
  else if word = "summon" then summon site actor args
  else if word = "kill" then kill site actor args
  else if word = "tag" then tag site actor args
  else if word = "tp" ∨ word = "teleport" then teleport site actor args
  else if word = "tellraw" then tellraw site actor args
  else if word = "say" then say actor args
  else if word = "gamerule" then gamerule site args
  else fault site (.unknownCommand word)

/-- An `execute` on its way through its clauses. -/
structure Chain where
  origin : Actor
  actors : List Actor
  stores : List Store := []

/-- Runs a command for every actor of a chain and stores each result. Yields the last one that
succeeded. -/
def Chain.runEach (chain : Chain) (site : Site) (run : Actor → Action Result) : Action Result := do
  let mut last : Int32 := 0
  let mut ok := false
  for actor in chain.actors do
    let r ← run actor
    applyStores chain.stores site actor r
    if r.ok then
      ok := true
      last := r.value
  return ⟨last, ok⟩

/-- The end of a chain without a command: the number of actors that are left. -/
def Chain.finish (chain : Chain) (site : Site) : Action Result := do
  for actor in chain.actors do
    applyStores chain.stores site actor ⟨1, true⟩
  return ⟨Int32.ofNat chain.actors.length, !chain.actors.isEmpty⟩

/-- The chain after a clause other than `run`, and the number of words the clause takes after its
first. -/
def Chain.clause (chain : Chain) (site : Site) (word : String) (args : List String) :
    Action (Chain × Nat) := do
  if word = "as" ∨ word = "at" then
    match args with
    | [] => fault site (.expected s!"execute {word} <targets>")
    | target :: _ => return ({ chain with actors := ← redirect site word target chain.actors }, 1)
  else if word = "positioned" then
    match args with
    | x :: y :: z :: _ =>
      let mut next : List Actor := []
      for actor in chain.actors do
        next := next ++ [{ actor with pos := ← positionOrFault site actor x y z }]
      return ({ chain with actors := next }, 3)
    | _ => fault site (.expected "execute positioned <x> <y> <z>")
  else if word = "if" ∨ word = "unless" then
    let (actors, used) ← filterActors site (word == "if") args chain.origin chain.actors
    return ({ chain with actors }, used)
  else if word = "store" then
    let (store, used) ← readStore site args
    return ({ chain with stores := chain.stores ++ [store] }, used)
  else fault site (.unknownExecute word)

mutual

def perform (call : Call) (site : Site) : List String → Actor → Action Result
  | [], _ => fault site .emptyCommand
  | word :: args, actor =>
    if word = "execute" then chain call site 0 args ⟨actor, [actor], []⟩
    else simple call site actor word args

/-- Goes through the clauses of an `execute`, of which the first `skip` words are done with. -/
def chain (call : Call) (site : Site) (skip : Nat) : List String → Chain → Action Result
  | [], c => c.finish site
  | word :: args, c =>
    match skip with
    | skip + 1 => chain call site skip args c
    | 0 =>
      if word = "run" then
        if args.isEmpty then fault site (.expected "execute run <command>")
        else c.runEach site (perform call site args)
      else do
        let (c, used) ← c.clause site word args
        chain call site used args c

end

end CommandPack.Machine
