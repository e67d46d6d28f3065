import CommandPack.Name
import CommandPack.DataType
import CommandPack.Decimal.Layout
import CommandPack.Decimal.Numeral

/-!
Operands: constants, scores, slots of structured data, and values that are reached through another
one.
-/

namespace CommandPack

open Text

inductive Container where
  | block | entity | storage
deriving DecidableEq, Inhabited

namespace Container

def all : List Container := [block, entity, storage]

def name : Container → String
  | block => "block"
  | entity => "entity"
  | storage => "storage"

def nameAt (n : Nat) : String :=
  match all[n]? with
  | some c => c.name
  | none => s!"container({n})"

def parse? (s : String) : Option Container := all.find? (·.name == s)

def unknown (s : String) : String := s!"unknown container kind {quote s}"

end Container

structure Score where
  player : Name
  objective : Name
deriving Inhabited

namespace Score

def display (s : Score) : String := s!"{s.player.display}@{s.objective.display}"

def same (a b : Score) : Bool := a.player.same b.player && a.objective.same b.objective

end Score

structure Slot where
  container : Container
  target : Name
  path : String
  type : DataType
deriving Inhabited

namespace Slot

def inStorage (id : Name) (path : String) (type : DataType) : Slot := ⟨.storage, id, path, type⟩
def onEntity (selector : Name) (path : String) (type : DataType) : Slot :=
  ⟨.entity, selector, path, type⟩

def display (s : Slot) : String :=
  s!"StructuredVar[{s.type.render}]({s.container.name}, {s.target.display}, {quote s.path})"

def withType (s : Slot) (type : DataType) : Slot := { s with type }

def sub (s : Slot) (path : String) (type : DataType) : Slot :=
  let path :=
    if s.path.isEmpty then path
    else if hasLead "[" path then s.path ++ path
    else s.path ++ "." ++ path
  { s with path, type }

end Slot

/-- How an object is reached: its number goes into a register, a function marks the object, and a
selector finds the mark. -/
structure ObjectAccess where
  register : Score
  fetch : Path
  selected : Name

/-- Something with a value. All but constants may be assigned to. -/
inductive Operand where
  /-- A constant, written as the target language writes it. -/
  | const (type : DataType) (text : String)
  | score (s : Score)
  | slot (s : Slot)
  | staged (type : DataType) (via : Operand)
  /-- A member of the object whose number is the value of `object`. -/
  | member (access : Option ObjectAccess) (object : Operand) (name : String) (type : DataType)

namespace Operand

instance : Inhabited Operand := ⟨.const .any ""⟩

def int (n : Int) : Operand := const .int (toString n)
def byte (n : Int) : Operand := const .byte s!"{n}b"
def short (n : Int) : Operand := const .short s!"{n}s"
def long (n : Int) : Operand := const .long s!"{n}L"
def float (x : Float32) : Operand := const .float (Decimal.renderSingle .plain x ++ "f")
def double (x : Float) : Operand := const .double (Decimal.renderDouble .plain x ++ "d")
def string (s : String) : Operand := const .string (quote s)

def type : Operand → DataType
  | const type _ => type
  | score _ => .wholeNumber
  | slot s => s.type
  | staged type _ => type
  | member _ _ _ type => type

def display : Operand → String
  | const type text => s!"Const[{type.render}]({text})"
  | score s => s.display
  | slot s => s.display
  | staged type _ => s!"Derived[{type.render}](staged)"
  | member _ object name type =>
    s!"Derived[{type.render}](ObjectAttribute({object.display}, {name}))"

def isDerived : Operand → Bool
  | staged .. | member .. => true
  | _ => false

def isType (v : Operand) (supers : List DataType) : Bool := v.type.isAny supers

def isNumberSuffix (c : Char) : Bool := "bBsSlLfFdD".toList.contains c

/-- The value of a number constant, whose last character may tell its type. -/
def numberOf? (text : String) : Option Float :=
  let digits := match text.toList.reverse with
    | c :: rest@(_ :: _) => if isNumberSuffix c then String.ofList rest.reverse else text
    | _ => text
  Decimal.readDouble? digits

def notNumeric (text : String) : String := s!"constant {text} is not numeric"

end Operand

/-- A test in a command, such as `score p o matches 1..`, by its words. -/
structure Condition where
  parts : List Name

namespace Condition

def compare (a : Score) (op : String) (b : Score) : Condition :=
  ⟨[.lit "score", a.player, a.objective, .lit op, b.player, b.objective]⟩

def within (a : Score) (range : String) : Condition :=
  ⟨[.lit "score", a.player, a.objective, .lit "matches", .lit range]⟩

def present (s : Slot) : Condition :=
  ⟨[.lit "data", .lit s.container.name, s.target, .lit s.path]⟩

/-- The words in a template: literal ones as they are, the others as holes. -/
def template (c : Condition) : String :=
  join " " (c.parts.map fun
    | .lit text => escapeTemplate text
    | .sym _ => "%s")

def args (c : Condition) : List Name :=
  c.parts.filter fun
    | .lit _ => false
    | .sym _ => true

def isEmpty (c : Condition) : Bool := c.parts.isEmpty

def display (c : Condition) : String := join " " (c.parts.map Name.display)

end Condition

end CommandPack
