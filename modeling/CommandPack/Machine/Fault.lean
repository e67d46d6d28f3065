import CommandPack.Tag.Notation
import CommandPack.Tag.Path
import CommandPack.Machine.Words

/-!
Faults: the ways a command can fail for good, with the place and the calls that led there.
-/

namespace CommandPack.Machine

open Text

inductive FaultKind where
  | malformed
  | unknownName
  | badValue
  | general
  | limit
  | halted
  | other
deriving DecidableEq

def FaultKind.label : FaultKind → String
  | malformed => "syntax error"
  | unknownName => "name error"
  | badValue => "value error"
  | general => "runtime error"
  | limit => "limit error"
  | halted => "halted"
  | other => "error"

def FaultKind.ofIndex (n : Int) : FaultKind :=
  match n with
  | 0 => malformed
  | 1 => unknownName
  | 2 => badValue
  | 3 => general
  | 4 => limit
  | 5 => halted
  | _ => other

/-- A command inside a function. Lines count from 1. -/
structure Location where
  function : String := ""
  line : Int := 0
  command : String := ""

def Location.isUnset (l : Location) : Bool := l.function.isEmpty && l.line == 0

/-- An active call and the line it is at. -/
structure Frame where
  function : String
  line : Int
deriving DecidableEq

inductive SelectorError where
  | invalid
  | unknown
  | invalidArguments
  | invalidArgument (arg : String)
  | invalidLimit (value : String)
  | unsupported (key : String)

def SelectorError.message (text : String) : SelectorError → String
  | invalid => s!"invalid selector {quote text}"
  | unknown => s!"unknown selector {quote text}"
  | invalidArguments => s!"invalid selector arguments in {quote text}"
  | invalidArgument arg => s!"invalid selector argument {quote arg} in {quote text}"
  | invalidLimit value => s!"invalid limit {quote value} in {quote text}"
  | unsupported key => s!"unsupported selector argument {quote key} in {quote text}"

inductive Cause where
  | budget (limit : Int)
  | cancelled
  | halted
  | words (line : String) (e : WordError)
  | emptyCommand
  | unknownFunction (path : String)
  | tooDeep (limit : Int) (path : String)
  | unknownCommand (word : String)
  | expected (usage : String)
  | unknownObjective (name : String)
  | unknownScoreboard (word : String)
  | unknownObjectives (word : String)
  | unknownPlayers (word : String)
  | invalidScore (text : String)
  | unknownOperation (op : String)
  | selector (text : String) (e : SelectorError)
  | localCoordinates
  | invalidCoordinate (text : String)
  | unsupportedStore (word : String)
  | expectedMode (word : String)
  | unknownExecute (word : String)
  | invalidScale (text : String)
  | unknownStoreType (word : String)
  | badPath (text : String) (e : Tag.PathError)
  | cannotStore (path : String) (e : Tag.Misfit)
  | invalidRange (text : String)
  | unknownComparison (op : String)
  | unsupportedCondition (word : String)
  | unknownDataTarget (word : String)
  | written (text : String) (e : Tag.ReadError)
  | mergeNeedsCompound
  | unknownData (word : String)
  | expectedSourceAfter (action : String)
  | expectedSource (word : String)
  | modifyMergeNeedsCompound
  | unsupportedAction (word : String)
  | unknownTag (name : String)
  | summonNeedsCompound
  | unknownTagCommand (word : String)
  | teleportUsage
  | teleportDestination
  | chat (text : String)
  | invalidRule (value name : String)

def Cause.kind : Cause → FaultKind
  | budget _ | tooDeep .. => .limit
  | cancelled | halted => .halted
  | unknownFunction _ | unknownCommand _ | unknownObjective _ | unknownTag _ => .unknownName
  | words .. | emptyCommand | expected _ | unknownScoreboard _ | unknownObjectives _
  | unknownPlayers _ | unknownOperation _ | unsupportedStore _ | expectedMode _ | unknownExecute _
  | unknownComparison _ | unsupportedCondition _ | unknownDataTarget _ | unknownData _
  | expectedSourceAfter _ | expectedSource _ | unsupportedAction _ | unknownTagCommand _
  | teleportUsage | teleportDestination => .malformed
  | _ => .badValue

def Cause.message : Cause → String
  | budget limit => s!"command budget of {limit} exceeded"
  | cancelled => "execution cancelled"
  | halted => "execution halted by observer"
  | words line e => e.message line
  | emptyCommand => "empty command"
  | unknownFunction path => s!"unknown function {path}"
  | tooDeep limit path => s!"maximum call depth of {limit} exceeded calling {path}"
  | unknownCommand word => s!"unknown command {quote word}"
  | expected usage => s!"expected {usage}"
  | unknownObjective name => s!"unknown objective {name}"
  | unknownScoreboard word => s!"unknown scoreboard subcommand {quote word}"
  | unknownObjectives word => s!"unknown objectives subcommand {quote word}"
  | unknownPlayers word => s!"unknown players subcommand {quote word}"
  | invalidScore text => s!"invalid score {quote text}"
  | unknownOperation op => s!"unknown operation {quote op}"
  | selector text e => e.message text
  | localCoordinates => "local coordinates are not supported"
  | invalidCoordinate text => s!"invalid coordinate {quote text}"
  | unsupportedStore word => s!"unsupported store target {quote word}"
  | expectedMode word => s!"expected result or success, got {quote word}"
  | unknownExecute word => s!"unknown execute subcommand {quote word}"
  | invalidScale text => s!"invalid scale {quote text}"
  | unknownStoreType word => s!"unknown store type {quote word}"
  | badPath text e => e.message text
  | cannotStore path e => s!"cannot store into {path}: {e.message}"
  | invalidRange text => s!"invalid range {quote text}"
  | unknownComparison op => s!"unknown comparison {quote op}"
  | unsupportedCondition word => s!"unsupported condition {quote word}"
  | unknownDataTarget word => s!"unknown data target {quote word}"
  | written text e => e.message text
  | mergeNeedsCompound => "data merge needs a compound"
  | unknownData word => s!"unknown data subcommand {quote word}"
  | expectedSourceAfter action => s!"expected value or from after {action}"
  | expectedSource word => s!"expected value or from, got {quote word}"
  | modifyMergeNeedsCompound => "data modify merge needs a compound"
  | unsupportedAction word => s!"unsupported data modify action {quote word}"
  | unknownTag name => s!"unknown function tag {name}"
  | summonNeedsCompound => "summon data must be a compound"
  | unknownTagCommand word => s!"unknown tag subcommand {quote word}"
  | teleportUsage => "expected tp [<targets>] <x> <y> <z> or tp <targets> <destination>"
  | teleportDestination => "invalid teleport destination"
  | chat text => text
  | invalidRule value name => s!"invalid value {quote value} for {name}"

/-- A fault as it is reported. Frames are listed innermost first. -/
structure Report where
  kind : FaultKind
  message : String
  location : Location := {}
  stack : List Frame := []

def Report.text (r : Report) : String :=
  if r.location.isUnset then s!"{r.kind.label}: {r.message}"
  else s!"{r.kind.label}: {r.message} ({r.location.function}:{r.location.line})"

def Frame.text (f : Frame) : String :=
  s!"  at {f.function}:{f.line}\n"

/-- The text with the failing command and the active calls. -/
def Report.friendly (r : Report) : String :=
  r.text ++ "\n" ++
    (if r.location.command.isEmpty then "" else " | " ++ r.location.command ++ "\n") ++
    (if r.stack.isEmpty then ""
      else "\nStack trace (most recent call first):\n" ++ String.join (r.stack.map Frame.text))

structure Fault where
  cause : Cause
  location : Location
  stack : List Frame

def Fault.report (f : Fault) : Report :=
  ⟨f.cause.kind, f.cause.message, f.location, f.stack⟩

inductive Stop where
  | fault (f : Fault)
  | crash (text : String)
  | busy

def Stop.text : Stop → String
  | fault f => f.report.text
  | crash text => s!"panic: {text}"
  | busy => "vm is already running"

end CommandPack.Machine
