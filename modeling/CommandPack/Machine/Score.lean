import CommandPack.Machine.Selector

/-!
Scores: 32-bit numbers that players and entities have in objectives.
-/

namespace CommandPack.Machine

open Decimal

inductive Holder where
  | player (name : String)
  | entity (id : Nat)
deriving DecidableEq

def holders (m : Machine) (actor : Actor) (s : String) : Except SelectorError (List Holder) :=
  if isSelector s then (select m actor s).map fun es => es.map fun e => .entity e.id
  else .ok [.player s]

def holdersOrFault (site : Site) (actor : Actor) (s : String) : Action (List Holder) := do
  match holders (← get) actor s with
  | .ok hs => return hs
  | .error e => fault site (.selector s e)

def score? (m : Machine) (h : Holder) (objective : String) : Option Int32 :=
  match h with
  | .player name => (Dict.find? objective m.scores).bind (Dict.find? name)
  | .entity id => (m.entity? id).bind fun e => Dict.find? objective e.scores

def setScore (m : Machine) (h : Holder) (objective : String) (v : Int32) : Machine :=
  match h with
  | .player name =>
    let scores := (Dict.find? objective m.scores).getD []
    { m with scores := Dict.insert objective (Dict.insert name v scores) m.scores }
  | .entity id =>
    m.updateEntity id fun e => { e with scores := Dict.insert objective v e.scores }

def resetScore (m : Machine) (h : Holder) (objective : String) : Machine :=
  match h with
  | .player name =>
    match Dict.find? objective m.scores with
    | some scores => { m with scores := Dict.insert objective (Dict.erase name scores) m.scores }
    | none => m
  | .entity id => m.updateEntity id fun e => { e with scores := Dict.erase objective e.scores }

/-- Uses an objective: a missing one is created, or refused by a strict machine. -/
def useObjective (site : Site) (name : String) : Action Unit := do
  let m ← get
  if m.objectives.contains name then return
  else if m.strict then fault site (.unknownObjective name)
  else set { m with objectives := m.objectives ++ [name] }

/-- The score of the one holder that `s` means; none if it means several or none. -/
def singleScore (site : Site) (actor : Actor) (s objective : String) : Action (Option Int32) := do
  match ← holdersOrFault site actor s with
  | [h] => return score? (← get) h objective
  | _ => return none

def floorDiv (a b : Int32) : Int32 :=
  let q := a / b
  if a % b ≠ 0 ∧ (a < 0) ≠ (b < 0) then q - 1 else q

/-- The operations on two scores. Swapping is not among them. -/
inductive ScoreOp where
  | assign | add | sub | mul | div | mod | min | max
deriving DecidableEq

def ScoreOp.parse? : String → Option ScoreOp
  | "=" => some assign
  | "+=" => some add
  | "-=" => some sub
  | "*=" => some mul
  | "/=" => some div
  | "%=" => some mod
  | "<" => some min
  | ">" => some max
  | _ => none

/-- The result on wrapping 32-bit numbers. Division and remainder round down, and have no result
for a zero divisor. -/
def ScoreOp.apply (op : ScoreOp) (a b : Int32) : Option Int32 :=
  match op with
  | assign => some b
  | add => some (a + b)
  | sub => some (a - b)
  | mul => some (a * b)
  | div => if b = 0 then none else some (floorDiv a b)
  | mod => if b = 0 then none else some (a - floorDiv a b * b)
  | min => some (if b < a then b else a)
  | max => some (if b > a then b else a)

/-- An inclusive range, open where there is no bound. -/
structure Range where
  lo : Option Int := none
  hi : Option Int := none

def Range.holds (r : Range) (n : Int) : Bool :=
  r.lo.all (· ≤ n) && r.hi.all (n ≤ ·)

def Range.parse? (s : String) : Option Range :=
  match Text.cutText? ['.', '.'] s.toList with
  | none => (readInt? 32 s).map fun n => ⟨some n, some n⟩
  | some (a, b) =>
    if a.isEmpty ∧ b.isEmpty then none
    else do
      let lo ← if a.isEmpty then some none else (readInt? 32 (String.ofList a)).map some
      let hi ← if b.isEmpty then some none else (readInt? 32 (String.ofList b)).map some
      some ⟨lo, hi⟩

def scoreboardObjectives (site : Site) : List String → Action Result
  | [] => fault site (.expected "scoreboard objectives|players ...")
  | "add" :: args =>
    match args with
    | name :: _ :: _ => do
      let m ← get
      if m.objectives.contains name then return .failed
      let objectives := m.objectives ++ [name]
      set { m with objectives }
      return ⟨Int32.ofNat objectives.length, true⟩
    | _ => fault site (.expected "scoreboard objectives add <name> <criteria>")
  | "remove" :: args =>
    match args with
    | name :: _ => do
      let m ← get
      if !m.objectives.contains name then return .failed
      let objectives := m.objectives.filter (· != name)
      set { m with
        objectives
        scores := Dict.erase name m.scores
        entities := m.entities.map fun (e : Entity) =>
          if e.alive then { e with scores := Dict.erase name e.scores } else e }
      return ⟨Int32.ofNat objectives.length, true⟩
    | [] => fault site (.expected "scoreboard objectives remove <name>")
  | word :: _ => fault site (.unknownObjectives word)

/-- Gives every holder the score `f` of its current one, an unset one counting as zero. -/
def changeScores (f : Int32 → Int32) (objective : String) (hs : List Holder) : Action Result := do
  let mut last : Int32 := 0
  for h in hs do
    let m ← get
    last := f ((score? m h objective).getD 0)
    set (setScore m h objective last)
  return ⟨last, !hs.isEmpty⟩

def assignScores (site : Site) (actor : Actor) (word : String) (f : Int32 → Int32 → Int32) :
    List String → Action Result
  | target :: objective :: amount :: _ => do
    match readInt? 32 amount with
    | none => fault site (.invalidScore amount)
    | some n => do
      useObjective site objective
      let hs ← holdersOrFault site actor target
      changeScores (f · (Int32.ofInt n)) objective hs
  | _ => fault site (.expected s!"scoreboard players {word} <targets> <objective> <score>")

def operatePair (site : Site) (op : String) (objective objective' : String) (t s : Holder) :
    Action (Option Int32) := do
  let m ← get
  let a := (score? m t objective).getD 0
  let b := (score? m s objective').getD 0
  if op = "><" then
    set (setScore (setScore m t objective b) s objective' a)
    return some b
  match ScoreOp.parse? op with
  | none => fault site (.unknownOperation op)
  | some op =>
    match op.apply a b with
    | none => return none
    | some v => do
      set (setScore m t objective v)
      return some v

def operateScores (site : Site) (op : String) (objective objective' : String)
    (targets sources : List Holder) : Action Result := do
  let mut last : Int32 := 0
  let mut ok := !targets.isEmpty && !sources.isEmpty
  for t in targets do
    for s in sources do
      match ← operatePair site op objective objective' t s with
      | some v => last := v
      | none => ok := false
  return ⟨last, ok⟩

def scoreboardPlayers (site : Site) (actor : Actor) : List String → Action Result
  | [] => fault site (.expected "scoreboard objectives|players ...")
  | "set" :: args => assignScores site actor "set" (fun _ n => n) args
  | "add" :: args => assignScores site actor "add" (· + ·) args
  | "remove" :: args => assignScores site actor "remove" (· - ·) args
  | "get" :: args =>
    match args with
    | target :: objective :: _ => do
      useObjective site objective
      match ← singleScore site actor target objective with
      | some v => return ⟨v, true⟩
      | none => return .failed
    | _ => fault site (.expected "scoreboard players get <target> <objective>")
  | "reset" :: args =>
    match args with
    | target :: rest => do
      let hs ← holdersOrFault site actor target
      for h in hs do
        match rest with
        | objective :: _ => modify (resetScore · h objective)
        | [] => modify fun m => m.objectives.foldl (resetScore · h ·) m
      return ⟨Int32.ofNat hs.length, !hs.isEmpty⟩
    | [] => fault site (.expected "scoreboard players reset <targets> [objective]")
  | "operation" :: args =>
    match args with
    | target :: objective :: op :: source :: objective' :: _ => do
      useObjective site objective
      useObjective site objective'
      let targets ← holdersOrFault site actor target
      let sources ← holdersOrFault site actor source
      operateScores site op objective objective' targets sources
    | _ => fault site (.expected
        "scoreboard players operation <targets> <objective> <op> <source> <objective>")
  | word :: _ => fault site (.unknownPlayers word)

def scoreboard (site : Site) (actor : Actor) : List String → Action Result
  | word :: arg :: args =>
    if word = "objectives" then scoreboardObjectives site (arg :: args)
    else if word = "players" then scoreboardPlayers site actor (arg :: args)
    else fault site (.unknownScoreboard word)
  | _ => fault site (.expected "scoreboard objectives|players ...")

end CommandPack.Machine
