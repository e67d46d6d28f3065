import CommandPack.Position
import CommandPack.Datum
import CommandPack.Text.Blank
import CommandPack.Text.Quoted

/-!
Programs: variables, functions and classes as they are written in a document.
-/

namespace CommandPack

open Text

/-- What a term of a statement stands for. -/
inductive TermKind where
  /-- A variable, or a member of an object as `variable.member`. -/
  | ident (name : String)
  | int (n : Int64)
  | float (x : Float)
  | string (s : String)
deriving Inhabited

structure Term where
  pos : Position
  kind : TermKind
deriving Inhabited

namespace Term

def display (t : Term) : String :=
  match t.kind with
  | .ident name => name
  | .int n => toString n.toInt
  | .float x => Decimal.renderDouble .general x
  | .string s => quote s

def name (t : Term) : String :=
  match t.kind with
  | .ident name => name
  | _ => ""

/-- The object and the member that a term names. -/
def member? (t : Term) : Option (String × String) :=
  match t.kind with
  | .ident name => cut? '.' name
  | _ => none

end Term

/-- A test: `exists` a value, a value `matches` a range, or a comparison of two values. -/
structure Test where
  pos : Position
  left : Term
  op : String
  right : Option Term := none
  /-- What a value has to match. -/
  range : String := ""

def Test.display (t : Test) : String :=
  match t.op with
  | "exists" => "exists " ++ t.left.display
  | "matches" => t.left.display ++ " matches " ++ t.range
  | op => t.left.display ++ " " ++ op ++ " " ++ (t.right.map Term.display).getD "<nil>"

inductive Piece where
  | text (pos : Position) (s : String)
  /-- Changes the style of what follows; an empty value removes the key. -/
  | style (pos : Position) (values : Dict Datum)
  | term (t : Term)

def displayStyle (values : Dict Datum) : String :=
  "\x7b" ++ join ", " (values.map fun (k, v) => k ++ ": " ++ v.display) ++ "\x7d"

def Piece.display : Piece → String
  | text _ s => quote s
  | style _ values => displayStyle values
  | term t => t.display

inductive Stmt where
  | set (pos : Position) (var value : Term)
  | add (pos : Position) (var value : Term)
  | op (pos : Position) (var : Term) (operator : String) (value : Term)
  | loop (pos : Position) (test : Test) (body : List Stmt)
  | branch (pos : Position) (test : Test) (yes : List Stmt) (no : Option (List Stmt))
  | call (pos : Position) (function : String) (arg : Option Term)
  | leave (pos : Position) (value : Option Term)
  | command (pos : Position) (text : String)
  | print (pos : Position) (target : String) (pieces : List Piece)
  | create (pos : Position) (cls : String) (var : Term)
deriving Inhabited

namespace Stmt

def pos : Stmt → Position
  | set p .. | add p .. | op p .. | loop p .. | branch p .. | call p .. | leave p ..
  | command p .. | print p .. | create p .. => p

def display : Stmt → String
  | set _ var value => s!"set {var.display} = {value.display}"
  | add _ var value => s!"add {var.display} += {value.display}"
  | op _ var operator value => s!"op {var.display} {operator} {value.display}"
  | loop _ test body => s!"while {test.display} ({body.length} statements)"
  | branch _ test yes none => s!"if {test.display} ({yes.length} statements)"
  | branch _ test yes (some no) =>
    s!"if {test.display} ({yes.length} statements, else {no.length})"
  | call _ function none => "call " ++ function
  | call _ function (some arg) => s!"call {function}({arg.display})"
  | leave _ none => "return"
  | leave _ (some value) => "return " ++ value.display
  | command _ text => "cmd " ++ text
  | print _ target pieces => s!"print {target} [" ++ join ", " (pieces.map Piece.display) ++ "]"
  | create _ cls var => s!"new {cls} -> {var.display}"

end Stmt

inductive VarKind where
  | score | storage | entity | block | unknown
deriving DecidableEq

namespace VarKind

def name : VarKind → String
  | score => "score"
  | storage => "storage"
  | entity => "entity"
  | block => "block"
  | unknown => "unknown"

def ofName (s : String) : VarKind := ([score, storage, entity, block].find? (·.name == s)).getD unknown

def nameAt (n : Int) : String :=
  match n with
  | 0 => score.name
  | 1 => storage.name
  | 2 => entity.name
  | 3 => block.name
  | _ => unknown.name

end VarKind

structure VarDecl where
  pos : Position
  name : String
  kind : VarKind
  objective : String := ""
  target : String := ""
  path : String := ""
  type : String := ""
  cls : String := ""

def VarDecl.display (v : VarDecl) : String :=
  match v.kind with
  | .score => if v.cls.isEmpty then v.name ++ ": score" else s!"{v.name}: object {v.cls}"
  | kind => s!"{v.name}: {kind.name} {v.target} {v.path} ({v.type})"

structure FunctionDecl where
  pos : Position
  name : String
  description : String := ""
  tags : List String := []
  body : List Stmt := []

def FunctionDecl.display (f : FunctionDecl) : String :=
  s!"function {f.name} ({f.body.length} statements)"

structure ClassDecl where
  pos : Position
  name : String
  inherits : List String := []
  /-- The members with the names of their types. -/
  members : Dict String := []
  functions : List FunctionDecl := []

def ClassDecl.display (c : ClassDecl) : String :=
  if c.inherits.isEmpty then "class " ++ c.name
  else s!"class {c.name}(" ++ join ", " c.inherits ++ ")"

structure Program where
  pos : Position
  root : String
  vars : List VarDecl := []
  functions : List FunctionDecl := []
  classes : List ClassDecl := []

def Program.display (p : Program) : String :=
  s!"program {p.root} ({p.vars.length} vars, {p.functions.length} functions, {p.classes.length} classes)"

end CommandPack
