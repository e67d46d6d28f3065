import CommandPack.Text.Blank
import CommandPack.Text.Lower
import CommandPack.Text.Quoted

/-!
Data types: what a slot is known to hold. A type tells whether a value may be moved into a slot; it
has no form at run time.
-/

namespace CommandPack

open Text

/-- The nodes of the type order: numbers are whole or floating-point, whole numbers are bytes,
shorts, ints or longs, floating-point ones floats or doubles. -/
inductive Kind where
  | any | number | wholeNumber | floatingPoint
  | byte | short | int | long | float | double
  | string | list | compound
deriving DecidableEq, Inhabited

namespace Kind

def all : List Kind :=
  [any, number, wholeNumber, floatingPoint, byte, short, int, long, float, double, string, list,
    compound]

def name : Kind → String
  | any => "any"
  | number => "number"
  | wholeNumber => "whole_number"
  | floatingPoint => "floating_point"
  | byte => "byte"
  | short => "short"
  | int => "int"
  | long => "long"
  | float => "float"
  | double => "double"
  | string => "string"
  | list => "list"
  | compound => "compound"

/-- The storage format of a kind that has exactly one. -/
def storage? : Kind → Option String
  | byte => some "byte"
  | short => some "short"
  | int => some "int"
  | long => some "long"
  | float => some "float"
  | double => some "double"
  | string => some "str"
  | _ => none

def parent? : Kind → Option Kind
  | wholeNumber | floatingPoint => some number
  | byte | short | int | long => some wholeNumber
  | float | double => some floatingPoint
  | _ => none

/-- The name of the `n`-th kind; a number that means none is shown as such. -/
def nameAt (n : Nat) : String :=
  match all[n]? with
  | some k => k.name
  | none => s!"kind({n})"

end Kind

/-- A type. Lists may tell the kind of their items; for a list whose item kind is `any` nothing is
known about them. -/
structure DataType where
  kind : Kind
  elem : Kind := .any
deriving DecidableEq, Inhabited

namespace DataType

def any : DataType := ⟨.any, .any⟩
def number : DataType := ⟨.number, .any⟩
def wholeNumber : DataType := ⟨.wholeNumber, .any⟩
def byte : DataType := ⟨.byte, .any⟩
def short : DataType := ⟨.short, .any⟩
def int : DataType := ⟨.int, .any⟩
def long : DataType := ⟨.long, .any⟩
def float : DataType := ⟨.float, .any⟩
def double : DataType := ⟨.double, .any⟩
def string : DataType := ⟨.string, .any⟩
def list : DataType := ⟨.list, .any⟩
def compound : DataType := ⟨.compound, .any⟩
def listOf (elem : Kind) : DataType := ⟨.list, elem⟩

def render (t : DataType) : String :=
  if t.kind = .list ∧ t.elem ≠ .any then s!"list[{t.elem.name}]" else t.kind.name

/-- The name of the lists of the `n`-th kind. -/
def listNameAt (n : Nat) : String :=
  if n = 0 then "list" else s!"list[{Kind.nameAt n}]"

def isConcrete (t : DataType) : Bool := t.kind.storage?.isSome

def storage (t : DataType) : String := t.kind.storage?.getD ""

def parent? (t : DataType) : Option DataType :=
  if t.kind = .list ∧ t.elem ≠ .any then some list else t.kind.parent?.map (⟨·, .any⟩)

/-- Is `t` the type `super` or a part of it? A chain of types has at most three members. -/
def isA (t super : DataType) : Bool :=
  t == super || t.parent?.any fun p => p == super || p.parent?.any (· == super)

def isAny (t : DataType) (supers : List DataType) : Bool := supers.any t.isA

/-- Why a text names no type. -/
inductive ParseError where
  | nestedList (text : String)
  | unknown (text : String)

def ParseError.message : ParseError → String
  | nestedList text => s!"nested list type {quote text} is not supported"
  | unknown text => s!"unknown data type {quote text}"

def listItem? (name : String) : Option String :=
  match dropLead? "list[".toList name.toList with
  | none => none
  | some rest =>
    match rest.reverse with
    | ']' :: inner => some (String.ofList inner.reverse)
    | _ => none

def parseWithin : (fuel : Nat) → String → Except ParseError DataType
  | 0, s => .error (.unknown s)
  | fuel + 1, s =>
    let name := lower (trim s)
    if name.isEmpty then .ok any
    else match listItem? name with
      | some item => do
        let elem ← parseWithin fuel item
        if elem.kind = .list then .error (.nestedList s) else .ok (listOf elem.kind)
      | none =>
        if name = "str" then .ok string
        else if name = "bool" ∨ name = "boolean" then .ok byte
        else match Kind.all.find? (·.name == name) with
          | some k => .ok ⟨k, .any⟩
          | none => .error (.unknown s)

/-- The type that a text names, in any letter case. No text is any type. -/
def parse (s : String) : Except ParseError DataType :=
  parseWithin (s.length + 2) s

end DataType

end CommandPack
