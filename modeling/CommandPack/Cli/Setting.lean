import CommandPack.Cli.Flag
import CommandPack.Disk.Basic
import CommandPack.Text.Lower
import CommandPack.Yaml.Value

/-!
Settings: a flag on the command line, else a variable of the environment, else an entry of the
configuration file, else the flag's usual value.
-/

namespace CommandPack.Cli

open Text

def asText : Datum → String
  | .string s => s
  | .bool b => if b then "true" else "false"
  | .int n => toString n
  | .float x => Decimal.renderDouble .plain x
  | .time _ text => text
  | _ => ""

def dropZeros (s : String) : String :=
  match cut? '.' s with
  | some (whole, zeros) =>
    if ¬ zeros.isEmpty ∧ zeros.toList.all (· == '0') then whole else s
  | none => s

def asInt : Datum → Int
  | .string s => (Decimal.readMarkedInt? 64 (dropZeros s)).getD 0
  | .bool b => if b then 1 else 0
  | .int n => n
  | .float x => Decimal.truncToInt64 x
  | _ => 0

def asBool : Datum → Bool
  | .string s => (readBool? s).getD false
  | .bool b => b
  | .int n => n != 0
  | .float x => x != 0
  | _ => false

def variableName (key : String) : String :=
  "DPC_" ++ String.ofList (key.toList.map fun c => if c = '-' then '_' else c.toUpper)

structure Settings where
  flags : List Flag
  parsed : Parsed
  config : Dict Datum := []

variable {m : Type → Type} [Monad m]

def Settings.get (s : Settings) (p : Place m) (key : String) : m Datum := do
  if let some v := Dict.find? key s.parsed.given then return .string v
  match ← p.lookupVar (variableName key) with
  | some v => if ¬ v.isEmpty then return .string v
  | none => pure ()
  match Dict.find? key s.config with
  | some .null | none =>
    return .string (((s.flags.find? (·.name == key)).map (·.usual)).getD "")
  | some d => return d

def Settings.getText (s : Settings) (p : Place m) (key : String) : m String :=
  asText <$> s.get p key

def Settings.getInt (s : Settings) (p : Place m) (key : String) : m Int := asInt <$> s.get p key

def Settings.getBool (s : Settings) (p : Place m) (key : String) : m Bool := asBool <$> s.get p key

def readYamlConfig (text : String) : Except String (Dict Datum) :=
  match Yaml.load text with
  | .error e => .error e
  | .ok none => .ok []
  | .ok (some root) =>
    match root.record with
    | .ok fields => .ok fields
    | .error e => .error ("yaml: " ++ e.message)

def configEndings : List String :=
  ["json", "toml", "yaml", "yml", "properties", "props", "prop", "hcl", "tfvars", "dotenv", "env",
    "ini"]

def ending (path : String) : String :=
  let name := ((split '/' path).getLast?).getD ""
  match (split '.' name).reverse with
  | last :: _ :: _ => last
  | _ => ""

/-- The entries of a configuration file by its ending. Case does not count in keys. -/
def readConfig (ending text : String) : Except String (Dict Datum) :=
  let plain (fields : Dict Datum) : Dict Datum := Dict.ofList (fields.map fun (k, v) => (lower k, v))
  if ending = "yaml" ∨ ending = "yml" then plain <$> readYamlConfig text
  else if ending = "json" then
    match Json.read? text with
    | some (.object fields) => .ok (plain (Datum.ofJsonFields fields))
    | _ => .error "invalid character"
  else .error "decoder not found for this format"

/-- The file that `--config` names, or else the first in the home directory. Without one there are no
entries. -/
def loadConfig (p : Place m) (named : String) : m (Except String (Dict Datum)) := do
  if ¬ named.isEmpty then
    let kind := ending named
    if ¬ configEndings.contains kind then
      return .error s!"Unsupported Config Type {quote kind}"
    match ← p.readFile named with
    | .error e => return .error e
    | .ok text => return parsing (readConfig kind text)
  else
    let some home ← p.home? | return .ok []
    firstOf (configEndings.map (".dpc." ++ ·) ++ [".dpc"]) home
where
  parsing (r : Except String (Dict Datum)) : Except String (Dict Datum) :=
    r.mapError ("While parsing config: " ++ ·)
  firstOf : List String → String → m (Except String (Dict Datum))
    | [], _ => return .ok []
    | name :: names, home => do
      match ← p.readFile (Disk.joinPaths [home, name]) with
      | .error _ => firstOf names home
      | .ok text => return parsing (readConfig "yaml" text)

end CommandPack.Cli
