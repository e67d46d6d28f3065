import CommandPack.Disk.Basic
import CommandPack.Json
import CommandPack.Listing
import CommandPack.Problem.Basic

/-!
Packs: listings as directories of files.
-/

namespace CommandPack

open Text

namespace Pack

structure Options where
  /-- The number of the pack's format; 0 for the usual one. -/
  format : Int := 0
  description : String := ""
  /-- The name of the directories of functions; empty for the usual one. -/
  functionDir : String := ""
  /-- Is the data directory removed first? -/
  clean : Bool := false

def usualFormat : Int := 15

def usualDir : String := "functions"

namespace Options

def formatNumber (o : Options) : Int := if o.format = 0 then usualFormat else o.format

def dirName (o : Options) : String := if o.functionDir.isEmpty then usualDir else o.functionDir

end Options

inductive FileKind where
  | about | function | tag
deriving DecidableEq

structure File where
  kind : FileKind
  path : String
  text : String

def jsonText (j : Json) : String := j.renderIndented .markupSafe 0 ++ "\n"

def aboutFile (o : Options) : File :=
  ⟨.about, "pack.mcmeta", jsonText (.object [("pack", .object [
    ("pack_format", .ofInt o.formatNumber), ("description", .string o.description)])])⟩

/-- The file of a function. A function needs a path below its root. -/
def functionFile (o : Options) (f : Function) : Except String File :=
  match f.parts with
  | root :: name :: names =>
    .ok ⟨.function, Disk.joinPaths (["data", root, o.dirName] ++ name :: names) ++ ".mcfunction", f.text⟩
  | _ => .error s!"function {f.path} has no path below its namespace"

def tagFile (o : Options) (tag : String) (members : List String) : Except String File :=
  match cut? ':' tag with
  | some (root, name) =>
    if root.isEmpty ∨ name.isEmpty then .error s!"invalid tag {quote tag}"
    else .ok ⟨.tag, Disk.joinPaths ["data", root, "tags", o.dirName, name ++ ".json"],
      jsonText (.object [("values", .array (members.map .string))])⟩
  | none => .error s!"invalid tag {quote tag}"

def files (o : Options) (l : Listing) : List (Except String File) :=
  .ok (aboutFile o) :: l.functions.map (functionFile o) ++
    l.tags.map fun (tag, members) => tagFile o tag members

structure Summary where
  files : List String := []
  functions : Nat := 0
  tags : Nat := 0

def Summary.add (s : Summary) (f : File) : Summary :=
  { files := s.files ++ [f.path]
    functions := s.functions + if f.kind = .function then 1 else 0
    tags := s.tags + if f.kind = .tag then 1 else 0 }

variable {m : Type → Type} [Monad m]

/-- Writes files one after the other, also after one failed. -/
def writeFiles (p : Place m) (dir : String) : Summary → List (Except String File) →
    m (Summary × List String)
  | s, [] => return (s, [])
  | s, .error e :: fs => do
    let (s, es) ← writeFiles p dir s fs
    return (s, e :: es)
  | s, .ok f :: fs => do
    match ← p.writeFile (Disk.joinPaths [dir, f.path]) f.text with
    | .ok _ => writeFiles p dir (s.add f) fs
    | .error e =>
      let (s, es) ← writeFiles p dir s fs
      return (s, e :: es)

/-- Writes a pack. All failures come together; if the directory cannot be cleaned, nothing is
written. -/
def write (p : Place m) (dir : String) (o : Options) (l : Listing) :
    m (Option Summary × Option Failure) := do
  let removed ← if o.clean then p.removeAll (Disk.joinPaths [dir, "data"]) else pure (.ok ())
  match removed with
  | .error e => return (none, some (.plain e))
  | .ok _ =>
    let (s, es) ← writeFiles p dir {} (files o l)
    let s := { s with files := s.files.mergeSort fun a b => decide (a ≤ b) }
    return (some s, if es.isEmpty then none else some (.several (es.map .plain)))

end Pack

end CommandPack
