import CommandPack.Machine.Command

/-!
Running functions. Every call counts against the depth that is left, so a run ends whatever the
functions call.
-/

namespace CommandPack.Machine

def begin (m : Machine) (cancelled : Bool) : Except Stop Machine :=
  if m.running then .error .busy else .ok { m with running := true, cancelled, count := 0 }

def finish (m : Machine) : Machine :=
  { m with running := false }

/-- Tells the observer about an event; the observer may stop the run. -/
def notify (o : Observer) (site : Site) (event : Event) : Action Unit := do
  modify fun m => { m with log := m.log.push (.event event) }
  let m ← get
  if o.intrudes m.log then
    match m.begin false with
    | .error stop => set { m with log := m.log.push (.refused stop) }
    | .ok _ => pure ()
  match o.verdict (← get).log with
  | .proceed => return
  | .halt => fault site .halted
  | .crash text => throw (.crash text)

def countCommand (site : Site) : Action Unit := do
  modify fun m => { m with count := m.count + 1 }
  let m ← get
  if m.maxCommands > 0 ∧ (m.count : Int) > m.maxCommands then
    fault site (.budget m.maxCommands)
  if m.checkInterval > 0 ∧ (m.count : Int) % m.checkInterval = 0 ∧ m.cancelled then
    fault site .cancelled

def watchCommand (site : Site) : Action Unit := do
  let m ← get
  match m.observer with
  | none => return
  | some o =>
    if o.settings.mode.wants m.count then
      let l := site.location
      notify o site (.command l.function l.line l.command site.frames.length m.count)

def watchCall (site : Site) (path caller : String) : Action Unit := do
  match (← get).observer with
  | none => return
  | some o =>
    if o.settings.calls then notify o site (.call path caller site.frames.length)

def watchReturn (site : Site) (path : String) : Action Unit := do
  match (← get).observer with
  | none => return
  | some o =>
    if o.settings.returns then notify o site (.leave path site.frames.length)

def step (call : Call) (site : Site) (actor : Actor) : Action Result := do
  countCommand site
  watchCommand site
  match splitWords site.location.command with
  | .error e => fault site (.words site.location.command e)
  | .ok words => perform call site words actor

def runLines (call : Call) (path : String) (frames : List Frame) (actor : Actor) :
    (line : Nat) → List String → Action Unit
  | _, [] => return
  | line, command :: rest => do
    let _ ← step call ⟨⟨path, line, command⟩, ⟨path, line⟩ :: frames⟩ actor
    runLines call path frames actor (line + 1) rest

def callFunction : (depth : Nat) → Call
  | depth, path, caller, site, actor => do
    let m ← get
    match Dict.find? path m.functions with
    | none => fault site (.unknownFunction path)
    | some lines =>
      match depth with
      | 0 => fault site (.tooDeep m.maxDepth path)
      | depth + 1 =>
        watchCall ⟨site.location, ⟨path, 0⟩ :: site.frames⟩ path caller
        runLines (callFunction depth) path site.frames actor 1 lines
        watchReturn site path
        return ⟨Int32.ofNat lines.length, true⟩

/-- Runs an action as a run of its own. The machine keeps what the action did before it stopped. -/
def asRun {α : Type} (m : Machine) (cancelled : Bool) (a : Action α) : Except Stop α × Machine :=
  match m.begin cancelled with
  | .error stop => (.error stop, m)
  | .ok m =>
    let (r, m) := a m
    (r, m.finish)

def callEach (depth : Nat) : List String → Action Unit
  | [] => return
  | path :: paths => do
    let _ ← callFunction depth path "" {} {}
    callEach depth paths

def run (m : Machine) (path : String) (cancelled : Bool := false) : Except Stop Unit × Machine :=
  m.asRun cancelled (callEach m.maxDepth.toNat [path])

/-- The tag of the functions that run when a pack is loaded. -/
def loadTag : String := "minecraft:load"

def load (m : Machine) (cancelled : Bool := false) : Except Stop Unit × Machine :=
  m.asRun cancelled (callEach m.maxDepth.toNat ((Dict.find? loadTag m.tags).getD []))

def exec (m : Machine) (command : String) (cancelled : Bool := false) : Except Stop Result × Machine :=
  m.asRun cancelled (step (callFunction m.maxDepth.toNat) ⟨⟨"", 1, command⟩, []⟩ {})

def runAll (m : Machine) : List String → Except Stop Unit × Machine
  | [] => (.ok (), m)
  | path :: paths =>
    match m.run path with
    | (.ok _, m) => m.runAll paths
    | failed => failed

def loadAndRun (m : Machine) (paths : List String) : Except Stop Unit × Machine :=
  match m.load with
  | (.ok _, m) => m.runAll paths
  | failed => failed

def scoreOf? (m : Machine) (holder objective : String) : Option Int32 :=
  match holders m {} holder with
  | .ok (h :: _) => score? m h objective
  | _ => none

def assignScore (m : Machine) (player objective : String) (v : Int32) : Machine :=
  let objectives :=
    if m.objectives.contains objective then m.objectives else m.objectives ++ [objective]
  setScore { m with objectives } (.player player) objective v

/-- The tag at a path of a storage, or the whole storage for an empty path. -/
def storageAt? (m : Machine) (id path : String) : Option Tag := do
  let root ← Dict.find? id m.storage
  if path.isEmpty then some (.compound root)
  else match Tag.readPath path with
    | .ok steps => Tag.get? steps (.compound root)
    | .error _ => none

def sortedObjectives (m : Machine) : List String :=
  m.objectives.mergeSort (· ≤ ·)

def scoresOf (m : Machine) (objective : String) : Dict Int32 :=
  (Dict.find? objective m.scores).getD []

end CommandPack.Machine
