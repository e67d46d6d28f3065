import CommandPack.Json
import CommandPack.Machine.Data
import CommandPack.Machine.Score

/-!
Chat: what `say` and `tellraw` show. A text component is flattened to plain text; styles are
dropped, scores and data are read from the machine.
-/

namespace CommandPack.Machine

open Text Decimal

abbrev Flatten := ExceptT String (StateM Machine)

/-- Part of a command as part of flattening; a fault becomes its text. -/
def Flatten.ofAction {α : Type} (a : Action α) : Flatten α := fun m =>
  match a m with
  | (.ok x, m) => (.ok x, m)
  | (.error stop, m) => (.error stop.text, m)

mutual

/-- Are all numbers of the value within the range of doubles? -/
def inRange : Json → Bool
  | .number numeral => (readDouble? numeral).isSome
  | .array items => itemsInRange items
  | .object fields => fieldsInRange fields
  | _ => true

def itemsInRange : List Json → Bool
  | [] => true
  | v :: vs => inRange v && itemsInRange vs

def fieldsInRange : List (String × Json) → Bool
  | [] => true
  | (_, v) :: fs => inRange v && fieldsInRange fs

end

def renderNumeral (style : Layout) (numeral : String) : String :=
  match readDouble? numeral with
  | some x => renderDouble style x
  | none => numeral

mutual

def wordOf : Json → String
  | .null => "<nil>"
  | .bool b => if b then "true" else "false"
  | .number numeral => renderNumeral .general numeral
  | .string s => s
  | .array items => "[" ++ join " " (wordsOfItems items) ++ "]"
  | .object fields => "map[" ++ join " " (wordsOfFields fields) ++ "]"

def wordsOfItems : List Json → List String
  | [] => []
  | v :: vs => wordOf v :: wordsOfItems vs

def wordsOfFields : List (String × Json) → List String
  | [] => []
  | (k, v) :: fs => (k ++ ":" ++ wordOf v) :: wordsOfFields fs

end

def given? (k : String) (fields : Dict Json) : Option Json :=
  match Dict.find? k fields with
  | some .null => none
  | v => v

def givenText? (k : String) (fields : Dict Json) : Option String :=
  (Dict.find? k fields).bind Json.string?

def dataSource? (fields : Dict Json) : Option (List String) :=
  match given? "storage" fields, given? "entity" fields, given? "block" fields with
  | some v, _, _ => some ["storage", wordOf v]
  | none, some v, _ => some ["entity", wordOf v]
  | none, none, some v => some ("block" :: Text.fields (wordOf v))
  | none, none, none => none

def flattenScore (site : Site) (actor : Actor) (fields : Dict Json) : Flatten String := do
  let holder := (givenText? "name" fields).getD ""
  let objective := (givenText? "objective" fields).getD ""
  match ← Flatten.ofAction (singleScore site actor holder objective) with
  | some v => return toString v.toInt
  | none => return ""

def flattenData (site : Site) (actor : Actor) (path : String) (fields : Dict Json) :
    Flatten String := do
  match dataSource? fields with
  | none => throw s!"nbt component {quote path} has no source"
  | some words =>
    let target ← Flatten.ofAction (dataTarget site actor words)
    match target.place with
    | none => return ""
    | some place =>
      match Tag.readPath path with
      | .error e => throw (e.message path)
      | .ok steps =>
        match Tag.get? steps (.compound (place.load (← get))) with
        | some (.string s) => return s
        | some t => return t.render
        | none => return ""

def flattenSelector (actor : Actor) (s : String) : Flatten String := do
  match select (← get) actor s with
  | .error e => throw (e.message s)
  | .ok es => return join ", " (es.map Entity.shortType)

/-- What a component without text shows. -/
def flattenContent (site : Site) (actor : Actor) (fields : Dict Json) : Flatten String := do
  match givenText? "translate" fields with
  | some key => return key
  | none =>
    match Dict.find? "score" fields with
    | some (.object score) => flattenScore site actor score
    | _ =>
      match givenText? "nbt" fields with
      | some path => flattenData site actor path fields
      | none =>
        match givenText? "selector" fields with
        | some s => flattenSelector actor s
        | none => return ""

mutual

def flatten (site : Site) (actor : Actor) : Json → Flatten String
  | .string s => return s
  | .number numeral => return renderNumeral .plain numeral
  | .bool b => return if b then "true" else "false"
  | .null => return ""
  | .array items => flattenItems site actor items
  | .object fields => do
    let own ← match Dict.find? "text" fields with
      | some _ => flattenField "text" site actor fields
      | none => flattenContent site actor fields
    return own ++ (← flattenExtra site actor fields)

def flattenItems (site : Site) (actor : Actor) : List Json → Flatten String
  | [] => return ""
  | v :: vs => do
    let first ← flatten site actor v
    return first ++ (← flattenItems site actor vs)

def flattenField (k : String) (site : Site) (actor : Actor) : List (String × Json) → Flatten String
  | [] => return ""
  | (k', v) :: fs => if k' = k then flatten site actor v else flattenField k site actor fs

def flattenExtra (site : Site) (actor : Actor) : List (String × Json) → Flatten String
  | [] => return ""
  | (k, v) :: fs =>
    if k = "extra" then
      match v with
      | .array items => flattenItems site actor items
      | _ => return ""
    else flattenExtra site actor fs

end

def flattenText (site : Site) (actor : Actor) (raw : String) : Flatten String := do
  match Json.read? raw with
  | none => throw "invalid text component: malformed JSON"
  | some component =>
    if inRange component then flatten site actor component else throw "invalid text component: malformed JSON"

def post (line : String) : Action Result := do
  modify fun m => { m with chat := m.chat.push line }
  return ⟨1, true⟩

def tellraw (site : Site) (actor : Actor) : List String → Action Result
  | _ :: arg :: args => do
    let m ← get
    match flattenText site actor (join " " (arg :: args)) m with
    | (.error text, m) =>
      set m
      fault site (.chat text)
    | (.ok line, m) =>
      set m
      post line
  | _ => fault site (.expected "tellraw <targets> <message>")

def say (actor : Actor) (words : List String) : Action Result := do
  let who := match actor.self.bind (← get).entity? with
    | some e => e.shortType
    | none => "Server"
  post ("[" ++ who ++ "] " ++ join " " words)

end CommandPack.Machine
