import CommandPack.Tag.Basic
import CommandPack.Text.Quoted
import CommandPack.Decimal.Numeral

/-!
Paths into tags: compound keys and list indices. Reading, setting, extending and removing what
stands at a path.
-/

namespace CommandPack.Tag

open Text

/-- One step of a path. A negative index counts from the end of the list. -/
inductive Step where
  | key (k : String)
  | index (i : Int)
deriving DecidableEq

inductive PathError where
  | unterminatedIndex
  | badIndex
  | unterminatedKey
  | empty

def PathError.message (path : String) : PathError → String
  | unterminatedIndex => s!"unterminated index in path {quote path}"
  | badIndex => s!"bad index in path {quote path}"
  | unterminatedKey => s!"unterminated key in path {quote path}"
  | empty => "empty path"

/-- Where in a path the reader is. Pieces read so far are kept last character first. -/
inductive PathState where
  | between
  | bare (piece : List Char)
  | quoted (piece : List Char)
  | bracket (piece : List Char)

def scanPath : PathState → List Char → Except PathError (List Step)
  | .between, [] => .ok []
  | .between, c :: cs =>
    if c = '.' then scanPath .between cs
    else if c = '[' then scanPath (.bracket []) cs
    else if c = '"' then scanPath (.quoted []) cs
    else scanPath (.bare [c]) cs
  | .bare p, [] => .ok [.key (String.ofList p.reverse)]
  | .bare p, c :: cs =>
    if c = '.' then (.key (String.ofList p.reverse) :: ·) <$> scanPath .between cs
    else if c = '[' then (.key (String.ofList p.reverse) :: ·) <$> scanPath (.bracket []) cs
    else scanPath (.bare (c :: p)) cs
  | .quoted _, [] => .error .unterminatedKey
  | .quoted p, c :: cs =>
    if c = '"' then (.key (String.ofList p.reverse) :: ·) <$> scanPath .between cs
    else scanPath (.quoted (c :: p)) cs
  | .bracket _, [] => .error .unterminatedIndex
  | .bracket p, c :: cs =>
    if c = ']' then
      match Decimal.readInt? 64 (String.ofList p.reverse) with
      | some i => (.index i :: ·) <$> scanPath .between cs
      | none => .error .badIndex
    else scanPath (.bracket (c :: p)) cs

def readPath (path : String) : Except PathError (List Step) := do
  match ← scanPath .between path.toList with
  | [] => .error .empty
  | steps => .ok steps

def position? (n : Nat) (i : Int) : Option Nat :=
  let j := if i < 0 then i + n else i
  if 0 ≤ j ∧ j < n then some j.toNat else none

def get? : List Step → Tag → Option Tag
  | [], t => some t
  | .key k :: path, .compound fields => (Dict.find? k fields).bind (get? path)
  | .index i :: path, .list items =>
    (position? items.length i).bind fun j => items[j]?.bind (get? path)
  | _, _ => none

inductive Misfit where
  | notList
  | notCompound
  | outOfRange (i : Int)
deriving DecidableEq

def Misfit.message : Misfit → String
  | notList => "not a list"
  | notCompound => "not a compound"
  | outOfRange i => s!"index {i} out of range"

def container : List Step → Tag
  | .index _ :: _ => .list []
  | _ => .compound []

/-- Puts `v` at a path, creating the compounds and lists that are missing on the way. They stay
even if a later step does not fit. -/
def set (v : Tag) : List Step → Tag → Tag × Option Misfit
  | [], _ => (v, none)
  | .key k :: path, .compound fields =>
    let (t, misfit) := set v path ((Dict.find? k fields).getD (container path))
    (.compound (Dict.insert k t fields), misfit)
  | .key _ :: _, t => (t, some .notCompound)
  | .index i :: path, .list items =>
    match position? items.length i with
    | none => (.list items, some (.outOfRange i))
    | some j =>
      match items[j]? with
      | none => (.list items, some (.outOfRange i))
      | some item =>
        let (t, misfit) := set v path item
        (.list (items.set j t), misfit)
  | .index _ :: _, t => (t, some .notList)

/-- Replaces the list at a path, an absent one counting as empty. -/
def mapItems (f : List Tag → List Tag) (path : List Step) (root : Tag) : Tag × Option Misfit :=
  match get? path root with
  | none => set (.list (f [])) path root
  | some (.list items) => set (.list (f items)) path root
  | some _ => (root, some .notList)

def append (v : Tag) : List Step → Tag → Tag × Option Misfit :=
  mapItems (· ++ [v])

def prepend (v : Tag) : List Step → Tag → Tag × Option Misfit :=
  mapItems (v :: ·)

/-- Puts the entries of `new` over those of the compound at a path, an absent one counting as
empty. -/
def mergeAt (new : Dict Tag) (path : List Step) (root : Tag) : Tag × Option Misfit :=
  match get? path root with
  | none => set (.compound (Dict.merge [] new)) path root
  | some (.compound fields) => set (.compound (Dict.merge fields new)) path root
  | some _ => (root, some .notCompound)

def remove? : List Step → Tag → Option Tag
  | [.key k], .compound fields =>
    if Dict.has k fields then some (.compound (Dict.erase k fields)) else none
  | [.index i], .list items =>
    (position? items.length i).map fun j => .list (items.eraseIdx j)
  | .key k :: path, .compound fields => do
    let t ← Dict.find? k fields
    let t ← remove? path t
    some (.compound (Dict.insert k t fields))
  | .index i :: path, .list items => do
    let j ← position? items.length i
    let t ← items[j]?
    let t ← remove? path t
    some (.list (items.set j t))
  | _, _ => none

end CommandPack.Tag
