import CommandPack.Machine.World

/-!
Target selectors such as `@e[tag=a,limit=1]`.
-/

namespace CommandPack.Machine

open Text

/-- Whom a selector chooses from. There are no players, so selectors for players match nothing. -/
inductive Scope where
  | self
  | entities
  | players

structure Selector where
  scope : Scope
  tags : List String := []
  notTags : List String := []
  types : List String := []
  limit : Option Nat := none

def isSelector (s : String) : Bool :=
  match s.toList with
  | '@' :: _ :: _ => true
  | _ => false

namespace Selector

def scope? : Char → Option Scope
  | 's' => some .self
  | 'e' => some .entities
  | 'a' | 'p' | 'r' | 'n' => some .players
  | _ => none

def addArgument (sel : Selector) (arg : String) : Except SelectorError Selector :=
  match cut? '=' arg with
  | none => .error (.invalidArgument arg)
  | some (key, value) =>
    let key := trim key
    let value := trim value
    if key = "tag" then
      match dropLead? ['!'] value.toList with
      | some rest => .ok { sel with notTags := sel.notTags ++ [String.ofList rest] }
      | none => .ok { sel with tags := sel.tags ++ [value] }
    else if key = "type" then
      .ok { sel with types := sel.types ++ [stripLead "minecraft:" value] }
    else if key = "limit" then
      match Decimal.readInt? 64 value with
      | some n => if n < 1 then .error (.invalidLimit value) else .ok { sel with limit := some n.toNat }
      | none => .error (.invalidLimit value)
    else if key = "sort" then .ok sel
    else .error (.unsupported key)

def addArguments (sel : Selector) : List String → Except SelectorError Selector
  | [] => .ok sel
  | arg :: args => do addArguments (← sel.addArgument arg) args

def parse (s : String) : Except SelectorError Selector :=
  match s.toList with
  | '@' :: c :: rest =>
    match scope? c with
    | none => .error .unknown
    | some scope =>
      match rest with
      | [] => .ok { scope }
      | '[' :: body =>
        match body.reverse with
        | ']' :: inner =>
          if inner.isEmpty then .ok { scope }
          else addArguments { scope } (split ',' (String.ofList inner.reverse))
        | _ => .error .invalidArguments
      | _ => .error .invalidArguments
  | _ => .error .invalid

def matches? (sel : Selector) (e : Entity) : Bool :=
  sel.tags.all e.tags.contains && sel.notTags.all (!e.tags.contains ·) &&
    sel.types.all (· == e.shortType)

def choose (sel : Selector) (m : Machine) (actor : Actor) : List Entity :=
  let candidates := match sel.scope with
    | .self => (actor.self.bind m.entity?).toList
    | .entities => m.living
    | .players => []
  let chosen := candidates.filter sel.matches?
  match sel.limit with
  | some n => chosen.take n
  | none => chosen

end Selector

def select (m : Machine) (actor : Actor) (s : String) : Except SelectorError (List Entity) := do
  return (← Selector.parse s).choose m actor

def selectOrFault (site : Site) (actor : Actor) (s : String) : Action (List Entity) := do
  match select (← get) actor s with
  | .ok es => return es
  | .error e => fault site (.selector s e)

end CommandPack.Machine
