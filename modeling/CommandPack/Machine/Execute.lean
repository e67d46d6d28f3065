import CommandPack.Machine.Data
import CommandPack.Machine.Score

/-!
The clauses of `execute` that test conditions and store results.
-/

namespace CommandPack.Machine

inductive Comparison where
  | lt | le | eq | ge | gt
deriving DecidableEq

def Comparison.parse? : String → Option Comparison
  | "<" => some lt
  | "<=" => some le
  | "=" => some eq
  | ">=" => some ge
  | ">" => some gt
  | _ => none

def Comparison.holds (c : Comparison) (a b : Int32) : Bool :=
  match c with
  | lt => a < b
  | le => a ≤ b
  | eq => a == b
  | ge => b ≤ a
  | gt => b < a

/-- What a condition says, and the number of words it takes. -/
structure Tested where
  used : Nat
  holds : Bool

/-- `score <target> <objective> matches <range>` or `score <target> <objective> <op> <source>
<objective>`. An unset score makes the condition false. -/
def testScore (site : Site) (actor : Actor) : List String → Action Tested
  | target :: objective :: op :: arg :: rest => do
    useObjective site objective
    let a ← singleScore site actor target objective
    if op = "matches" then
      match Range.parse? arg with
      | none => fault site (.invalidRange arg)
      | some range => return ⟨5, a.any fun a => range.holds a.toInt⟩
    match rest with
    | [] =>
      fault site (.expected "execute if score <target> <objective> <op> <source> <objective>")
    | objective' :: _ => do
      useObjective site objective'
      let b ← singleScore site actor arg objective'
      match a, b with
      | some a, some b =>
        match Comparison.parse? op with
        | none => fault site (.unknownComparison op)
        | some c => return ⟨6, c.holds a b⟩
      | _, _ => return ⟨6, false⟩
  | _ => fault site (.expected "execute if score <target> <objective> <op> ...")

/-- `data <target> <path>`: is there something at the path? -/
def testData (site : Site) (actor : Actor) (words : List String) : Action Tested := do
  let target ← dataTarget site actor words
  match words.drop target.used with
  | [] => fault site (.expected "execute if data <target> <path>")
  | path :: _ =>
    match target.place with
    | none => return ⟨target.used + 2, false⟩
    | some place =>
      let steps ← pathOrFault site path
      return ⟨target.used + 2, (Tag.get? steps (.compound (place.load (← get)))).isSome⟩

def test (site : Site) (actor : Actor) : List String → Action Tested
  | word :: arg :: args => do
    if word = "score" then testScore site actor (arg :: args)
    else if word = "data" then testData site actor (arg :: args)
    else if word = "entity" then
      return ⟨2, !(← selectOrFault site actor arg).isEmpty⟩
    else fault site (.unsupportedCondition word)
  | _ => fault site (.expected "execute if <condition>")

/-- A place that receives the result, or the success, of a command. -/
structure Store where
  success : Bool
  words : List String

def storeWidth? (kind : String) : Option Nat :=
  if kind = "score" then some 3
  else if kind = "storage" ∨ kind = "entity" then some 5
  else if kind = "block" then some 7
  else none

def readStore (site : Site) : List String → Action (Store × Nat)
  | mode :: kind :: args =>
    match storeWidth? kind with
    | none => fault site (.unsupportedStore kind)
    | some n => do
      if (kind :: args).length < n then
        fault site (.expected s!"execute store {kind} arguments")
      if mode ≠ "result" ∧ mode ≠ "success" then fault site (.expectedMode mode)
      return (⟨mode == "success", (kind :: args).take n⟩, n + 1)
  | _ => fault site (.expected "execute store result|success <target>")

def Store.amount (s : Store) (r : Result) : Int32 :=
  if s.success then (if r.ok then 1 else 0) else if r.ok then r.value else 0

/-- Writes a result to a path: its type and scale follow the path. -/
def storeData (site : Site) (place : Place) (v : Int32) : List String → Action Unit
  | path :: kind :: scale :: _ => do
    let steps ← pathOrFault site path
    let scale ← scaleOrFault site scale
    match typed? kind (Float.ofInt v.toInt * scale) with
    | none => fault site (.unknownStoreType kind)
    | some t =>
      match ← changePlace place (Tag.set t steps) with
      | none => return
      | some misfit => fault site (.cannotStore path misfit)
  | _ => return

def Store.apply (s : Store) (site : Site) (actor : Actor) (r : Result) : Action Unit := do
  let v := s.amount r
  match s.words with
  | "score" :: target :: objective :: _ => do
    useObjective site objective
    for h in ← holdersOrFault site actor target do
      modify (setScore · h objective v)
  | words => do
    let target ← dataTarget site actor words
    match target.place with
    | none => return
    | some place => storeData site place v (words.drop target.used)

def applyStores (stores : List Store) (site : Site) (actor : Actor) (r : Result) : Action Unit := do
  for s in stores do
    s.apply site actor r

/-- The actors that `as` or `at` goes on with. -/
def redirect (site : Site) (word target : String) (actors : List Actor) : Action (List Actor) := do
  let mut next : List Actor := []
  for actor in actors do
    let es ← selectOrFault site actor target
    next := next ++ es.map fun e =>
      if word = "as" then { actor with self := some e.id } else { actor with pos := e.pos }
  return next

/-- The actors for which a condition holds, or does not hold, and the number of its words. A
condition is evaluated once even if there is no actor. -/
def filterActors (site : Site) (sense : Bool) (words : List String) (actor : Actor)
    (actors : List Actor) : Action (List Actor × Nat) := do
  if actors.isEmpty then
    return ([], (← test site actor words).used)
  let mut next : List Actor := []
  let mut used := 0
  for a in actors do
    let t ← test site a words
    used := t.used
    if t.holds == sense then next := next ++ [a]
  return (next, used)

end CommandPack.Machine
