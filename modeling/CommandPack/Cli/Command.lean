import CommandPack.Cli.Setting
import CommandPack.Compilation
import CommandPack.Machine.Loading
import CommandPack.Pack
import CommandPack.Problem.Format
import CommandPack.Problem.Suggest

/-!
The command line: `build`, `list`, `run` and `version`.
-/

namespace CommandPack.Cli

open Text

inductive Command where
  | build | list | run | version
deriving DecidableEq

namespace Command

def all : List Command := [build, list, run, version]

def name : Command → String
  | build => "build"
  | list => "list"
  | run => "run"
  | version => "version"

end Command

def programName : String := "dpc"

def commonFlags : List Flag :=
  [⟨"config", .text, "", none⟩, ⟨"no-color", .yesNo, "false", none⟩,
    ⟨"verbose", .yesNo, "false", some 'v'⟩, ⟨"objective", .text, "", none⟩,
    ⟨"library", .text, "", none⟩, ⟨"no-std", .yesNo, "false", none⟩,
    ⟨"greeting", .yesNo, "false", none⟩, ⟨"code", .text, "", some 'c'⟩]

def Command.ownFlags : Command → List Flag
  | build =>
    [⟨"output", .text, "out", some 'o'⟩, ⟨"pack-format", .whole, toString Pack.usualFormat, none⟩,
      ⟨"description", .text, "", none⟩, ⟨"function-dir", .text, Pack.usualDir, none⟩,
      ⟨"clean", .yesNo, "false", none⟩]
  | run =>
    [⟨"max-commands", .whole, toString ({} : Machine).maxCommands, none⟩,
      ⟨"trace", .yesNo, "false", none⟩, ⟨"scores", .yesNo, "true", none⟩,
      ⟨"strict-objectives", .yesNo, "false", none⟩]
  | list | version => [⟨"output", .text, "text", some 'o'⟩]

def Command.flags (c : Command) : List Flag := c.ownFlags ++ commonFlags

/-- Does a word before the command take the next one as its value? -/
def takesNext (word : String) : Bool :=
  let silent (p : Flag → Bool) : Bool := (commonFlags.find? p).any (·.kind == .yesNo)
  if word.toList.contains '=' then false
  else if hasLead "--" word then !silent (·.name == stripLead "--" word)
  else match word.toList with
    | ['-', c] => !silent (·.letter == some c)
    | _ => false

/-- The first word that is no flag and no value of one. A value at the very end ends the search. -/
def commandWord? : List String → Option String
  | [] => none
  | word :: rest =>
    if word = "--" then none
    else if takesNext word then
      match rest with
      | _ :: next :: rest => commandWord? (next :: rest)
      | _ => none
    else if word ≠ "" ∧ ¬ hasLead "-" word then some word
    else commandWord? rest

def dropCommand (name : String) : List String → List String
  | [] => []
  | word :: rest =>
    if word = "--" then word :: rest
    else if takesNext word then
      match rest with
      | [] => [word]
      | value :: rest => word :: value :: dropCommand name rest
    else if word = name then rest
    else word :: dropCommand name rest

def similarCommands (word : String) : List String :=
  let bytes (s : String) : List Char := (lower s).toUTF8.toList.map fun b => Char.ofNat b.toNat
  (Command.all.map Command.name ++ ["completion"]).filter fun name =>
    editDistance (bytes word) (bytes name) ≤ 2 || hasLead (lower word) name

def unknownCommand (word : String) : String :=
  let similar := similarCommands word
  s!"unknown command {quote word} for {quote programName}" ++
    if similar.isEmpty then ""
    else "\n\nDid you mean this?\n" ++ String.join (similar.map fun s => s!"\t{s}\n")

inductive Request where
  | command (c : Command) (p : Parsed)
  | help

def checkArgs (c : Command) (args : List String) : Except String Unit :=
  match c, args with
  | .version, arg :: _ =>
    let path := programName ++ " " ++ c.name
    .error s!"unknown command {quote arg} for {quote path}"
  | .build, _ :: _ :: _ | .list, _ :: _ :: _ =>
    .error s!"accepts at most 1 arg(s), received {args.length}"
  | _, _ => .ok ()

def request (args : List String) : Except String Request :=
  match commandWord? args with
  | none => do
    let _ ← (parse commonFlags args).mapError FlagFault.message
    return .help
  | some word =>
    if word = "help" ∨ word = "completion" then .ok .help
    else match Command.all.find? (·.name == word) with
      | none => .error (unknownCommand word)
      | some c => do
        let p ← (parse c.flags (dropCommand word args)).mapError FlagFault.message
        checkArgs c p.args
        return .command c p

structure Outcome where
  out : String := ""
  err : String := ""
  failure : Option Failure := none

namespace Outcome

def failed (message : String) : Outcome := { failure := some (.plain message) }

def ofFailure (f : Failure) (err : String) : Outcome := { err, failure := some f }

end Outcome

def inputName : String := "<stdin>"

/-- The source that a command works on and the file it came from. -/
def source {m : Type → Type} [Monad m] (p : Place m) (s : Settings) (args : List String) :
    m (Except String (String × String)) := do
  let path := args.headD ""
  if s.parsed.has "code" then
    if path.isEmpty then return .ok (← s.getText p "code", "")
    else return .error "multiple input sources specified"
  else if path.isEmpty then return .error "no input: pass a file, - for stdin, or --code"
  else if path = "-" then return .ok (← p.readInput, inputName)
  else return (← p.readFile path).map fun text => (text, path)

variable {m : Type → Type} [Monad m]

def buildOptions (p : Place m) (s : Settings) (filename : String) : m BuildOptions := do
  let objective ← s.getText p "objective"
  if ← s.getBool p "no-std" then return { objective, filename, withoutLibrary := true }
  return { objective, filename, library := ← s.getText p "library", greeting := ← s.getBool p "greeting" }

/-- A compiled source: the compilation, its listing and what the warnings say. -/
structure Built where
  compilation : Compilation
  listing : Listing
  warnings : String

/-- Compiles the source. Warnings are shown unless the listing fails. -/
def compile (p : Place m) (s : Settings) (args : List String) : m (Except Outcome Built) := do
  match ← source p s args with
  | .error e => return .error (.failed e)
  | .ok (text, filename) =>
    match Compilation.start (← buildOptions p s filename) with
    | .error e => return .error (.ofFailure (.problem e) "")
    | .ok c =>
      let (r, c) := c.addSource false text
      let warnings := Problem.formatWarnings false c.warnings
      match r, c.emit with
      | .error f, _ => return .error (.ofFailure f warnings)
      | .ok _, .error f => return .error (.ofFailure f "")
      | .ok _, .ok listing => return .ok ⟨c, listing, warnings⟩

def listingText (l : Listing) : String :=
  join "\n" (l.functions.map fun f => s!"# {f.path}\n" ++ f.text)

def functionJson (f : Function) : Json :=
  .object ([("path", .string f.path)] ++
    (if f.description.isEmpty then [] else [("description", .string f.description)]) ++
    (if f.tags.isEmpty then [] else [("tags", .array (f.tags.map .string))]) ++
    [("lines", .array (f.lines.map .string))])

/-- The listing as JSON; without functions there is no list of them. -/
def listingJson (l : Listing) : Json :=
  .object [
    ("functions", if l.functions.isEmpty then .null else .array (l.functions.map functionJson)),
    ("tags", .object (l.tags.map fun (tag, members) => (tag, .array (members.map .string))))]

def versionJson : Json :=
  .object [("commit", .string "unknown"), ("date", .string "unknown"), ("version", .string "dev")]

def flagText (c : Command) (s : Settings) (name : String) : String :=
  match Dict.find? name s.parsed.given with
  | some v => v
  | none => ((c.flags.find? (·.name == name)).map (·.usual)).getD ""

def flagOn (c : Command) (s : Settings) (name : String) : Bool := flagText c s name == "true"

def runVersion (s : Settings) : Outcome :=
  if lower (flagText .version s "output") = "json" then { out := Pack.jsonText versionJson }
  else { out := "dev\n" }

def runList (s : Settings) (b : Built) : Outcome :=
  let format := flagText .list s "output"
  match lower format with
  | "" | "text" => { out := listingText b.listing, err := b.warnings }
  | "json" => { out := Pack.jsonText (listingJson b.listing), err := b.warnings }
  | _ => { Outcome.failed ("unknown output format: " ++ format) with err := b.warnings }

def runBuild (p : Place m) (s : Settings) (b : Built) : m Outcome := do
  let dir := flagText .build s "output"
  let options : Pack.Options := {
    format := ← s.getInt p "pack-format"
    description := ← s.getText p "description"
    functionDir := ← s.getText p "function-dir"
    clean := flagOn .build s "clean" }
  match ← Pack.write p dir options b.listing with
  | (_, some f) => return .ofFailure f b.warnings
  | (none, none) => return { err := b.warnings }
  | (some summary, none) =>
    let files := if ← s.getBool p "verbose" then summary.files else []
    return {
      out := String.join (files.map (· ++ "\n")) ++
        s!"wrote {summary.functions} functions and {summary.tags} tags to {dir}\n"
      err := b.warnings }

def functionPath (root name : String) : String :=
  if name.toList.contains ':' then name else s!"{root}:{name}/{name}"

def scoreLines (m : Machine) : List String :=
  m.sortedObjectives.flatMap fun o =>
    (m.scoresOf o).map fun (holder, v) => s!"{o} {holder} = {v.toInt}"

/-- Runs the load functions, then the functions named. What was said and scored is shown also after
a failure. -/
def runRun (p : Place m) (s : Settings) (names : List String) (b : Built) : m Outcome := do
  let paths := match b.compilation.programs with
    | program :: _ => names.map (functionPath (b.compilation.session.node program.root).name)
    | [] => names
  let machine : Machine := Machine.ofListing { strict := flagOn .run s "strict-objectives" } b.listing
  let machine := { machine with maxCommands := ← s.getInt p "max-commands" }
  let (r, machine) := machine.loadAndRun paths
  let scores := if flagOn .run s "scores" then scoreLines machine else []
  return {
    out := String.join ((machine.chat.toList ++ scores).map (· ++ "\n"))
    err := b.warnings
    failure := match r with
      | .ok _ => none
      | .error stop => some (.stopped stop) }

def perform (p : Place m) (c : Command) (s : Settings) : m Outcome := do
  let args := s.parsed.args
  let compiling (args : List String) (next : Built → m Outcome) : m Outcome := do
    match ← compile p s args with
    | .error o => return o
    | .ok b => next b
  match c with
  | .version => return runVersion s
  | .list => compiling args fun b => return runList s b
  | .build => compiling args (runBuild p s)
  | .run =>
    if s.parsed.has "code" then compiling [] (runRun p s args)
    else compiling (args.take 1) (runRun p s (args.drop 1))

def execute (p : Place m) (args : List String) : m Outcome := do
  match request args with
  | .error e => return .failed e
  | .ok .help => return {}
  | .ok (.command c parsed) =>
    let s : Settings := { flags := Command.all.flatMap Command.ownFlags ++ commonFlags, parsed }
    match ← loadConfig p (← s.getText p "config") with
    | .error e => return .failed ("reading config: " ++ e)
    | .ok config => perform p c { s with config }

end CommandPack.Cli
