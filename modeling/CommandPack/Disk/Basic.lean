import CommandPack.Dict
import CommandPack.Disk.Path

/-!
Places where files are read and written, and one of them that is kept in memory.
-/

namespace CommandPack

open Text

/-- What a program can ask of the place where it runs. Failures come as texts. -/
structure Place (m : Type → Type) where
  lookupVar : String → m (Option String)
  home? : m (Option String)
  readInput : m String
  readFile : String → m (Except String String)
  /-- Writes a file and makes the directories around it. -/
  writeFile : (path text : String) → m (Except String Unit)
  /-- Removes a file or a directory with all that is in it. -/
  removeAll : String → m (Except String Unit)

/-- Files in memory by their clean paths. -/
structure Disk where
  files : Dict String := []
  readOnly : Bool := false

namespace Disk

def key (path : String) : String :=
  let path := clean path
  if path = "." ∨ path = ".." then "/" else path

def refusal : String := "operation not permitted"

def write (d : Disk) (path text : String) : Except String Disk :=
  if d.readOnly then .error refusal else .ok { d with files := Dict.insert (key path) text d.files }

def isBelow (path file : String) : Bool := file == path || hasLead (path ++ "/") file

def remove (d : Disk) (path : String) : Except String Disk :=
  if d.readOnly then .error refusal
  else .ok { d with files := d.files.filter fun (file, _) => !isBelow (key path) file }

def read (d : Disk) (path : String) : Except String String :=
  let file := clean path
  match Dict.find? file d.files with
  | some text => .ok text
  | none =>
    if file = "." ∨ d.files.any (fun (f, _) => isBelow file f) then
      .error s!"read {path}: is a directory"
    else if d.files.any (fun (f, _) => isBelow f file) then .error s!"open {path}: not a directory"
    else .error s!"open {path}: no such file or directory"

end Disk

/-- A place in memory: source files, the environment, input, and a disk for what is written. -/
structure Sandbox where
  sources : Disk := {}
  environment : Dict String := []
  input : String := ""
  disk : Disk := {}

namespace Sandbox

def update (f : Disk → Except String Disk) : StateM Sandbox (Except String Unit) := do
  let s ← get
  match f s.disk with
  | .ok disk =>
    set { s with disk }
    return .ok ()
  | .error e => return .error e

/-- The place in memory. Its home is the directory of the sources. -/
def place : Place (StateM Sandbox) where
  lookupVar name := return (← get).environment.find? name
  home? := return some ""
  readInput := return (← get).input
  readFile path := return (← get).sources.read path
  writeFile path text := update (·.write path text)
  removeAll path := update (·.remove path)

end Sandbox

end CommandPack
