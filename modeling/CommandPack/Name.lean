import CommandPack.Text.Blank
import CommandPack.Text.Quoted
import CommandPack.Problem.Basic

/-!
Names: literal words and symbols. The final text of a symbol is decided late, by a table that keeps
the texts of different symbols apart.
-/

namespace CommandPack

open Text

/-- The names from a root down to an entity. -/
abbrev Path := List String

def Path.joined : Path → String
  | [] => ""
  | root :: rest => root ++ ":" ++ join "/" rest

def Path.dotted (p : Path) : String := join "." p

inductive SymbolKind where
  /-- An ordinary text, qualified by the slash path of its owner. -/
  | string
  /-- Restricted texts, qualified with dots. -/
  | tag | objective | player
  /-- A template over other names, which is taken as it is. -/
  | composite
  | path
deriving DecidableEq, Inhabited

namespace SymbolKind

def all : List SymbolKind := [string, tag, objective, player, composite, path]

def name : SymbolKind → String
  | string => "string"
  | tag => "tag"
  | objective => "objective"
  | player => "player"
  | composite => "composite"
  | path => "path"

def isRestricted : SymbolKind → Bool
  | tag | objective | player => true
  | _ => false

/-- The name of the `n`-th kind; a number that means none is shown as such. -/
def nameAt (n : Nat) : String :=
  match all[n]? with
  | some k => k.name
  | none => s!"kind({n})"

end SymbolKind

/-- A symbol over names of type `ν`. Symbols are told apart by their number. -/
structure SymbolOf (ν : Type) where
  id : Int
  kind : SymbolKind
  text : String
  owner : Option Path
  args : List ν

inductive Name where
  | lit (text : String)
  | sym (s : SymbolOf Name)

instance : Inhabited Name := ⟨.lit ""⟩

abbrev Symbol := SymbolOf Name

def SymbolOf.display (s : Symbol) : String :=
  s!"{s.kind.name}[{s.id}]({quote s.text})"

namespace Name

def display : Name → String
  | lit text => text
  | sym s => s.display

def same : Name → Name → Bool
  | lit a, lit b => a == b
  | sym a, sym b => a.id == b.id
  | _, _ => false

mutual

/-- Adds to `seen` the symbols that a name depends on and that are not there yet, operands
first. -/
def collectInto (seen : List Symbol) : Name → List Symbol
  | lit _ => seen
  | sym ⟨id, kind, text, owner, args⟩ =>
    if seen.any (·.id == id) then seen
    else collectAllInto seen args ++ [⟨id, kind, text, owner, args⟩]

def collectAllInto (seen : List Symbol) : List Name → List Symbol
  | [] => seen
  | n :: ns => collectAllInto (collectInto seen n) ns

end

/-- The symbols that names depend on, each once, operands before the symbols made of them. -/
def collect (names : List Name) : List Symbol := collectAllInto [] names

end Name

/-- The number of placeholders `%s` of a template. A percent sign takes the next character along. -/
def placeholders : List Char → Nat
  | '%' :: c :: cs => (if c = 's' then 1 else 0) + placeholders cs
  | _ :: cs => placeholders cs
  | [] => 0

/-- The number of holes that are met when a template is filled: `%s` is a hole and `%%` a percent
sign. -/
def holes : List Char → Nat
  | '%' :: 's' :: cs => holes cs + 1
  | '%' :: '%' :: cs => holes cs
  | _ :: cs => holes cs
  | [] => 0

def fillHoles : List Char → List String → List Char
  | '%' :: 's' :: cs, arg :: args => arg.toList ++ fillHoles cs args
  | '%' :: 's' :: cs, [] => fillHoles cs []
  | '%' :: '%' :: cs, args => '%' :: fillHoles cs args
  | c :: cs, args => c :: fillHoles cs args
  | [], _ => []

def templateMismatch (template : String) (found args : Nat) : Problem :=
  .malformed s!"template {quote template} has {found} placeholders but {args} arguments"

/-- Fills a template that has exactly as many holes as there are arguments. -/
def fill (template : String) (args : List String) : Except Problem String :=
  let n := holes template.toList
  if n = args.length then .ok (String.ofList (fillHoles template.toList args))
  else .error (templateMismatch template n args.length)

def escapeTemplate (text : String) : String :=
  String.ofList (text.toList.flatMap fun c => if c = '%' then ['%', '%'] else [c])

def isRestrictedChar (c : Char) : Bool :=
  ('a' ≤ c && c ≤ 'z') || ('A' ≤ c && c ≤ 'Z') || ('0' ≤ c && c ≤ '9') ||
    c == '_' || c == '+' || c == '-' || c == '.'

def isRestrictedText (s : String) : Bool :=
  !s.isEmpty && s.toList.all isRestrictedChar

def restrictedPattern : String := "^[a-zA-Z0-9_+\\-.]+$"

/-- The texts handed out so far. -/
structure SymbolTable where
  used : List String := []
  resolved : List (Int × String) := []
  active : List Int := []

namespace SymbolTable

def reserve (t : SymbolTable) (names : List String) : SymbolTable :=
  { t with used := names ++ t.used }

def isUsed (t : SymbolTable) (text : String) : Bool := t.used.contains text

def find? (t : SymbolTable) (id : Int) : Option String :=
  (t.resolved.find? (·.1 == id)).map (·.2)

def qualify (kind : SymbolKind) (owner : Option Path) (text : String) : String :=
  match owner with
  | none => text
  | some p => (if kind.isRestricted then p.dotted else p.joined) ++ "." ++ text

/-- The first of the texts with suffix `.i`, `.(i+1)`, … that is not used. Among more candidates
than used texts there is one. -/
def firstFree (used : List String) (candidate : Nat → String) : (tries i : Nat) → String
  | 0, i => candidate i
  | tries + 1, i =>
    if used.contains (candidate i) then firstFree used candidate tries (i + 1) else candidate i

/-- The text of a symbol that must differ from all others. -/
def unique (t : SymbolTable) (kind : SymbolKind) (owner : Option Path) (text : String) : String :=
  let base := qualify kind owner text
  if t.isUsed base then
    firstFree t.used (fun i => qualify kind owner s!"{text}.{i}") t.used.length 2
  else base

abbrev Resolve := ExceptT Problem (StateM SymbolTable)

def record (id : Int) (text : String) : Resolve String := do
  modify fun t => { t with resolved := (id, text) :: t.resolved }
  return text

/-- Finds the text of a symbol, which is active meanwhile. -/
def whileActive {α : Type} (id : Int) (x : Resolve α) : Resolve α := fun t =>
  let (r, t) := x { t with active := id :: t.active }
  (r, { t with active := t.active.filter (· != id) })

def settle (id : Int) (kind : SymbolKind) (text : String) (owner : Option Path) :
    Resolve String := do
  if kind = .path then
    match owner with
    | none => throw (.invariant s!"path symbol {id} has no owner")
    | some p => record id p.joined
  else
    if kind.isRestricted ∧ ¬ isRestrictedText text then
      throw (.invalidName s!"{kind.name} {quote text} must match {restrictedPattern}")
    let out := (← get).unique kind owner text
    modify fun t => { t with used := out :: t.used }
    record id out

mutual

/-- The final text of a name. A symbol keeps the text it first got, and may not refer to itself. -/
def resolve : Name → Resolve String
  | .lit text => return text
  | .sym ⟨id, kind, text, owner, args⟩ => do
    let t ← get
    match t.find? id with
    | some out => return out
    | none =>
      if t.active.contains id then
        throw (.invariant
          s!"symbol {SymbolOf.display ⟨id, kind, text, owner, args⟩} refers to itself")
      else whileActive id do
        if kind = .composite then
          let texts ← resolveAll args
          match fill text texts with
          | .ok out => record id out
          | .error p => throw p
        else settle id kind text owner

def resolveAll : List Name → Resolve (List String)
  | [] => return []
  | n :: ns => do
    let text ← resolve n
    return text :: (← resolveAll ns)

end

end SymbolTable

end CommandPack
