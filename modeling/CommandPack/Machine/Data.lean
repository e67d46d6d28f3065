import CommandPack.Machine.Selector

/-!
The data commands: reading and changing the tags of storages, entities and block entities.
-/

namespace CommandPack.Machine

open Text Decimal

inductive Place where
  | storage (id : String)
  | block (key : String)
  | entity (id : Nat)

def Place.load (m : Machine) : Place → Dict Tag
  | storage id => (Dict.find? id m.storage).getD []
  | block key => (Dict.find? key m.blocks).getD []
  | entity id => ((m.entity? id).map (·.data)).getD []

def Place.save (fields : Dict Tag) (m : Machine) : Place → Machine
  | storage id => { m with storage := Dict.insert id fields m.storage }
  | block key => { m with blocks := Dict.insert key fields m.blocks }
  | entity id => m.updateEntity id fun e => { e with data := fields }

/-- One coordinate: a number, or `~` and an offset from the base. -/
def readCoordinate (base : Float) (s : String) : Except Cause Float :=
  match s.toList with
  | '^' :: _ => .error .localCoordinates
  | '~' :: rest =>
    if rest.isEmpty then .ok (0 + base)
    else match readDouble? (String.ofList rest) with
      | some x => .ok (x + base)
      | none => .error (.invalidCoordinate s)
  | cs =>
    if cs.isEmpty then .ok 0
    else match readDouble? s with
      | some x => .ok x
      | none => .error (.invalidCoordinate s)

def readPosition (base : Position) (x y z : String) : Except Cause Position := do
  let x ← readCoordinate base.x x
  let y ← readCoordinate base.y y
  let z ← readCoordinate base.z z
  return ⟨x, y, z⟩

def orFault {α : Type} (site : Site) : Except Cause α → Action α
  | .ok a => return a
  | .error cause => fault site cause

def positionOrFault (site : Site) (actor : Actor) (x y z : String) : Action Position :=
  orFault site (readPosition actor.pos x y z)

def blockKey (p : Position) : String :=
  let whole (x : Float) : String := toString (truncToInt64 x.floor)
  s!"{whole p.x} {whole p.y} {whole p.z}"

/-- A data target: its place, none if an entity selector does not choose exactly one, and the
number of words that name it. -/
structure Target where
  place : Option Place
  used : Nat

/-- Resolves `storage <id>`, `entity <selector>` or `block <x> <y> <z>`. A storage or block that is
named exists from then on. -/
def dataTarget (site : Site) (actor : Actor) : List String → Action Target
  | word :: arg :: rest =>
    if word = "storage" then do
      modify fun m =>
        if Dict.has arg m.storage then m else { m with storage := Dict.insert arg [] m.storage }
      return ⟨some (.storage arg), 2⟩
    else if word = "entity" then do
      match ← selectOrFault site actor arg with
      | [e] => return ⟨some (.entity e.id), 2⟩
      | _ => return ⟨none, 2⟩
    else if word = "block" then
      match rest with
      | y :: z :: _ => do
        let key := blockKey (← positionOrFault site actor arg y z)
        modify fun m =>
          if Dict.has key m.blocks then m else { m with blocks := Dict.insert key [] m.blocks }
        return ⟨some (.block key), 4⟩
      | _ => fault site (.expected "block <x> <y> <z>")
    else fault site (.unknownDataTarget word)
  | _ => fault site (.expected "storage|entity|block <target>")

def pathOrFault (site : Site) (s : String) : Action (List Tag.Step) :=
  match Tag.readPath s with
  | .ok path => return path
  | .error e => fault site (.badPath s e)

def scaleOrFault (site : Site) (s : String) : Action Float :=
  match readDouble? s with
  | some x => return x
  | none => fault site (.invalidScale s)

def tagOrFault (site : Site) (words : List String) : Action Tag :=
  let text := join " " words
  match Tag.read text with
  | .ok t => return t
  | .error e => fault site (.written text e)

/-- The integer next to a number, down from it or toward zero, clamped to the range of 32-bit
numbers; no number is zero. -/
def saturate (down : Bool) (x : Float) : Int32 :=
  match Class.ofBits .double x.toBits.toNat with
  | .nan => 0
  | .infinite negative => if negative then -2147483648 else 2147483647
  | .finite negative m e => Int32.ofInt (max (-2147483648) (min (whole down negative m e) 2147483647))

/-- What reading a tag yields: a number scaled and rounded down, the bytes of a text, the items of
a list, the fields of a compound. -/
def measure (scale : Float) (t : Tag) : Int32 :=
  match t.number? with
  | some x => saturate true (x * scale)
  | none =>
    match t with
    | .string s => Int32.ofNat s.utf8ByteSize
    | .list items => Int32.ofNat items.length
    | .compound fields => Int32.ofNat fields.length
    | _ => 0

/-- A number as a tag of the named type. -/
def typed? (kind : String) (x : Float) : Option Tag :=
  match kind with
  | "byte" => some (.byte (Int8.ofInt (saturate false x).toInt))
  | "short" => some (.short (Int16.ofInt (saturate false x).toInt))
  | "int" => some (.int (saturate false x))
  | "long" => some (.long (Int64.ofInt (truncToInt64 x)))
  | "float" => some (.float x.toFloat32)
  | "double" => some (.double x)
  | _ => none

/-- Applies a change to the tree at a place; what it did before it failed stays. -/
def changePlace (place : Place) (f : Tag → Tag × Option Tag.Misfit) :
    Action (Option Tag.Misfit) := do
  let m ← get
  let (t, misfit) := f (.compound (place.load m))
  match t with
  | .compound fields => set (place.save fields m)
  | _ => pure ()
  return misfit

/-- The value a `data modify` puts: written, or copied from another place. None if there is
nothing to copy. -/
def modifySource (site : Site) (actor : Actor) (word : String) (args : List String) :
    Action (Option Tag) := do
  if word = "value" then return some (← tagOrFault site args)
  else if word = "from" then
    let target ← dataTarget site actor args
    match target.place with
    | none => return none
    | some place =>
      let root := Tag.compound (place.load (← get))
      match args.drop target.used with
      | [] => return some root
      | path :: _ => return Tag.get? (← pathOrFault site path) root
  else fault site (.expectedSource word)

def modifyWith (site : Site) (place : Place) (path : List Tag.Step) (action : String) (v : Tag) :
    Action Result := do
  let change : Tag → Tag × Option Tag.Misfit ←
    if action = "set" then pure (Tag.set v path)
    else if action = "append" then pure (Tag.append v path)
    else if action = "prepend" then pure (Tag.prepend v path)
    else if action = "merge" then
      match v with
      | .compound fields => pure (Tag.mergeAt fields path)
      | _ => fault site .modifyMergeNeedsCompound
    else fault site (.unsupportedAction action)
  match ← changePlace place change with
  | none => return ⟨1, true⟩
  | some _ => return .failed

def dataModify (site : Site) (actor : Actor) (place : Place) : List String → Action Result
  | path :: action :: source => do
    if source.isEmpty then
      fault site (.expected "data modify <target> <path> <action> value|from ...")
    let path ← pathOrFault site path
    match source with
    | word :: arg :: args =>
      match ← modifySource site actor word (arg :: args) with
      | none => return .failed
      | some v => modifyWith site place path action v
    | _ => fault site (.expectedSourceAfter action)
  | _ => fault site (.expected "data modify <target> <path> <action> value|from ...")

def dataGet (site : Site) (place : Place) : List String → Action Result
  | [] => return ⟨Int32.ofNat (place.load (← get)).length, true⟩
  | path :: rest => do
    let path ← pathOrFault site path
    match Tag.get? path (.compound (place.load (← get))) with
    | none => return .failed
    | some t =>
      match rest with
      | [] => return ⟨measure 1 t, true⟩
      | scale :: _ => return ⟨measure (← scaleOrFault site scale) t, true⟩

def dataRemove (site : Site) (place : Place) : List String → Action Result
  | [] => fault site (.expected "data remove <target> <path>")
  | path :: _ => do
    let path ← pathOrFault site path
    let m ← get
    match Tag.remove? path (.compound (place.load m)) with
    | some (.compound fields) =>
      set (place.save fields m)
      return ⟨1, true⟩
    | _ => return .failed

def dataMerge (site : Site) (place : Place) : List String → Action Result
  | [] => fault site (.expected "data merge <target> <nbt>")
  | words => do
    match ← tagOrFault site words with
    | .compound fields =>
      modify fun m => place.save (Dict.merge (place.load m) fields) m
      return ⟨1, true⟩
    | _ => fault site .mergeNeedsCompound

def data (site : Site) (actor : Actor) : List String → Action Result
  | word :: kind :: arg :: args => do
    let target ← dataTarget site actor (kind :: arg :: args)
    match target.place with
    | none => return .failed
    | some place =>
      let rest := (kind :: arg :: args).drop target.used
      if word = "get" then dataGet site place rest
      else if word = "remove" then dataRemove site place rest
      else if word = "merge" then dataMerge site place rest
      else if word = "modify" then dataModify site actor place rest
      else fault site (.unknownData word)
  | _ => fault site (.expected "data get|modify|remove|merge <target> ...")

end CommandPack.Machine
