import CommandPack.Dict
import CommandPack.Text.Blank
import CommandPack.Machine.Fault

/-!
The machine that functions run on: scores, storages, block entities, entities and chat, together
with its functions, its limits and the observer that watches it.
-/

namespace CommandPack.Machine

open Text

structure Position where
  x : Float := 0
  y : Float := 0
  z : Float := 0

def Position.tag (p : Position) : Tag :=
  .list [.double p.x, .double p.y, .double p.z]

/-- An entity. A removed entity stays known, because commands may still run as it. -/
structure Entity where
  id : Nat
  type : String
  data : Dict Tag
  scores : Dict Int32 := []
  alive : Bool := true

namespace Entity

def summoned (id : Nat) (type : String) (pos : Position) : Entity :=
  { id, type, data := [("Pos", pos.tag), ("Tags", .list [])] }

def shortType (e : Entity) : String := stripLead "minecraft:" e.type

def tags (e : Entity) : List String :=
  match Dict.find? "Tags" e.data with
  | some (.list items) => items.filterMap Tag.string?
  | _ => []

def addTag (e : Entity) (tag : String) : Entity :=
  let items := match Dict.find? "Tags" e.data with
    | some (.list items) => items
    | _ => []
  { e with data := Dict.insert "Tags" (.list (items ++ [.string tag])) e.data }

def removeTag (e : Entity) (tag : String) : Entity :=
  match Dict.find? "Tags" e.data with
  | some (.list items) =>
    let items := items.eraseP fun t => t.string? == some tag
    { e with data := Dict.insert "Tags" (.list items) e.data }
  | _ => e

/-- The first three numbers of the position tag, what is missing counting as zero. -/
def pos (e : Entity) : Position :=
  match Dict.find? "Pos" e.data with
  | some (.list items) =>
    let coord (i : Nat) : Float := (items[i]?.bind Tag.number?).getD 0
    ⟨coord 0, coord 1, coord 2⟩
  | _ => {}

def setPos (e : Entity) (p : Position) : Entity :=
  { e with data := Dict.insert "Pos" p.tag e.data }

end Entity

inductive Event where
  | command (function : String) (line : Int) (command : String) (depth count : Nat)
  | call (function caller : String) (depth : Nat)
  | leave (function : String) (depth : Nat)

/-- An entry of an observer's log: an event, or the refusal of a run that the observer tried to
start on the machine it watches. -/
inductive LogEntry where
  | event (e : Event)
  | refused (s : Stop)

inductive StepMode where
  | all
  | never
  | sampled (interval : Int)

structure ObserverSettings where
  mode : StepMode := .all
  calls : Bool := true
  returns : Bool := true

/-- An interval below one samples every command. -/
def StepMode.wants (count : Nat) : StepMode → Bool
  | all => true
  | never => false
  | sampled interval => if interval ≤ 0 then true else count % interval.toNat == 0

inductive Verdict where
  | proceed
  | halt
  | crash (text : String)

/-- An observer decides by what it has logged so far, the current event included. -/
structure Observer where
  settings : ObserverSettings := {}
  /-- Does it try to start a run on the machine it watches? -/
  intrudes : Array LogEntry → Bool := fun _ => false
  verdict : Array LogEntry → Verdict := fun _ => .proceed

/-- The functions and the limits of a machine. -/
structure Setup where
  functions : Dict (List String) := []
  tags : Dict (List String) := []
  maxDepth : Int := 1024
  /-- The number of commands between two looks at the cancellation of a run; none if not
  positive. -/
  checkInterval : Int := 1000
  /-- Are references to missing objectives refused? -/
  strict : Bool := false
  observer : Option Observer := none

end Machine

/-- A machine: its setup, the state of the game world and the counters of the current run. -/
structure Machine extends Machine.Setup where
  /-- The command budget of a run; none if not positive. -/
  maxCommands : Int := 65536
  objectives : List String := []
  scores : Dict (Dict Int32) := []
  storage : Dict (Dict Tag) := []
  blocks : Dict (Dict Tag) := []
  /-- In summon order, the removed ones included. -/
  entities : List Machine.Entity := []
  lastEntity : Nat := 0
  chat : Array String := #[]
  rules : Dict String := []
  running : Bool := false
  cancelled : Bool := false
  count : Nat := 0
  log : Array Machine.LogEntry := #[]

namespace Machine

open Text

/-- The commands in the text of a function: its lines without blank ones and comments. -/
def commandsOf (text : String) : List String :=
  ((split '\n' text).map trim).filter fun line => !line.isEmpty && !hasLead "#" line

def define (m : Machine) (path : String) (lines : List String) : Machine :=
  { m with functions := Dict.insert path (lines.flatMap commandsOf) m.functions }

def addToTag (m : Machine) (tag : String) (paths : List String) : Machine :=
  { m with tags := Dict.insert tag ((Dict.find? tag m.tags).getD [] ++ paths) m.tags }

def living (m : Machine) : List Entity := m.entities.filter (·.alive)

def entity? (m : Machine) (id : Nat) : Option Entity := m.entities.find? (·.id == id)

def updateEntity (m : Machine) (id : Nat) (f : Entity → Entity) : Machine :=
  { m with entities := m.entities.map fun e => if e.id == id then f e else e }

abbrev Action := ExceptT Stop (StateM Machine)

/-- The command being executed and the active calls, innermost first. -/
structure Site where
  location : Location := {}
  frames : List Frame := []

structure Actor where
  self : Option Nat := none
  pos : Position := {}

/-- What a command yields. A condition that does not hold, or a target that matches nothing, is no
fault: the command just does not succeed. -/
structure Result where
  value : Int32
  ok : Bool

def Result.failed : Result := ⟨0, false⟩

def fault {α : Type} (site : Site) (cause : Cause) : Action α :=
  throw (.fault ⟨cause, site.location, site.frames⟩)

end Machine

end CommandPack
