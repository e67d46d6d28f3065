import CommandPack.Transfer.Scratch

/-!
Moves: the instructions that copy a value into a variable. Which ones depends on the two kinds of
operand; a move is made whole or not at all.
-/

namespace CommandPack.Transfer

open Text

/-- Numbers in commands have no exponent. -/
def formatScale (scale : Float) : String := Decimal.renderDouble .plain scale

/-- The factor for numbers that go through the scoreboard between structured slots: scaled up when
read, scaled down when stored. -/
def precisionScale : Float := 1e10

def incompatible (src dst : Operand) : Problem :=
  .incompatible s!"cannot move {src.type.render} value {src.display} into {dst.type.render} variable {dst.display}"

def badScale (scale : Float) (src dst : Operand) : Problem :=
  .unsupported s!"scale {formatScale scale} is not supported when moving {src.display} into {dst.display}"

def unitScale (scale : Float) (src dst : Operand) : Except Problem Unit :=
  if scale != 1 then .error (badScale scale src dst) else .ok ()

/-- A slot in a template, its target a hole. -/
def location (s : Slot) : String :=
  s.container.name ++ " %s " ++ escapeTemplate s.path

def scoreToScore (src dst : Score) : Instruction :=
  if src.same dst then .comment "scores are equal"
  else .literal "scoreboard players operation %s %s = %s %s"
    [dst.player, dst.objective, src.player, src.objective]

/-- Scores are 32-bit numbers, written without a suffix. -/
def constToScore (type : DataType) (text : String) (dst : Score) : Except Problem Instruction :=
  match Operand.numberOf? text with
  | none => .error (incompatible (.const type text) (.score dst))
  | some n =>
    if n < -2147483648 || n > 2147483647 then
      .error (.incompatible
        s!"{(Operand.const type text).display} does not fit in score {dst.display}")
    else .ok (.literal s!"scoreboard players set %s %s {Decimal.truncToInt64 n}"
      [dst.player, dst.objective])

def scoreToSlot (src : Score) (dst : Slot) (scale : Float) : Instruction :=
  .literal ("execute store result " ++ location dst ++ " " ++ dst.type.storage ++ " " ++
    formatScale scale ++ " run scoreboard players get %s %s")
    [dst.target, src.player, src.objective]

def constToSlot (text : String) (dst : Slot) : Instruction :=
  .literal ("data modify " ++ location dst ++ " set value " ++ escapeTemplate text) [dst.target]

def slotToScore (src : Slot) (dst : Score) (scale : Float) : Instruction :=
  .literal ("execute store result score %s %s run data get " ++ location src ++ " " ++
    formatScale scale) [dst.player, dst.objective, src.target]

def slotCopy (src dst : Slot) : Instruction :=
  .literal ("data modify " ++ location dst ++ " set from " ++ location src)
    [dst.target, src.target]

/-- Reads a slot scaled, and stores the result in another one scaled. -/
def storeThrough (src dst : Slot) (readScale storeScale : Float) : Instruction :=
  .literal ("execute store result " ++ location dst ++ " " ++ dst.type.storage ++ " " ++
    formatScale storeScale ++ " run data get " ++ location src ++ " " ++ formatScale readScale)
    [dst.target, src.target]

def warnOfCopy (src dst : Slot) : Synth Unit := do
  if src.type = .any ∧ dst.type ≠ .any then
    Synth.warn .typeAssumption
      s!"assuming the type of {src.display} matches destination {dst.display}"
  if ¬ dst.type.isConcrete ∧ dst.type ≠ .any then
    Synth.warn .typeAssumption
      s!"assuming non-concrete destination {dst.display} has the type of {src.display}"

/-- From slot to slot: a plain copy if the types allow it, else numbers go through the
scoreboard. -/
def slotToSlot (src dst : Slot) (scale : Float) : Synth Instruction := do
  if src.type = .any ∨ dst.type = .any ∨ src.type.isA dst.type then
    warnOfCopy src dst
    unitScale scale (.slot src) (.slot dst)
    return slotCopy src dst
  else if ¬ dst.type.isConcrete then
    throw (.incompatible s!"destination {dst.display} is not a concrete type")
  else if src.type.isA .number ∧ dst.type.isA .number then
    if dst.type = .double ∧ ¬ src.type.isConcrete then
      Synth.warn .precision
        s!"moving {src.type.render} {src.display} to double {dst.display} goes through the scoreboard; a double source is rounded to float precision"
    unitScale scale (.slot src) (.slot dst)
    return storeThrough src dst precisionScale (1 / precisionScale)
  else if src.type.isAny [.compound, .list, .string] ∧ dst.type.isA .number then
    return storeThrough src dst 1 scale
  else throw (incompatible (.slot src) (.slot dst))

/-- Moves between operands of which none is derived. -/
def direct (src dst : Operand) (scale : Float) : Synth (List Instruction) :=
  match dst, src with
  | .score d, .score s => do
    unitScale scale src dst
    return [scoreToScore s d]
  | .score d, .const type text => do
    unitScale scale src dst
    if ¬ type.isA .wholeNumber then throw (incompatible src dst)
    return [← constToScore type text d]
  | .score d, .slot s => return [slotToScore s d scale]
  | .slot d, .score s => do
    if ¬ d.type.isConcrete ∨ ¬ d.type.isA .number then throw (incompatible src dst)
    return [scoreToSlot s d scale]
  | .slot d, .const type text => do
    unitScale scale src dst
    if d.type ≠ .any ∧ d.type ≠ type then throw (incompatible src dst)
    return [constToSlot text d]
  | .slot d, .slot s => return [← slotToSlot s d scale]
  | _, _ => throw (incompatible src dst)

/-- The members of objects are reached through a library, and nobody checks that there is one. -/
def noAccess : Problem :=
  { kind := none, message := "a member is reached without the standard library", fatal := true }

/-- The slot of a member once its object is marked. -/
def memberSlot (access : ObjectAccess) (name : String) (type : DataType) : Slot :=
  .onEntity access.selected ("data." ++ name) type

/-- Copies a value into a variable that is not derived. A derived value is prepared first: the
object of a member is fetched. -/
def load (dst : Operand) (scale : Float) : Operand → Synth (List Instruction)
  | .staged type via => do
    unitScale scale (.staged type via) dst
    load dst 1 via
  | .member none object name type => do
    unitScale scale (.member none object name type) dst
    throw noAccess
  | .member (some access) object name type => do
    unitScale scale (.member (some access) object name type) dst
    let key ← load (.score access.register) 1 object
    let last ← direct (.slot (memberSlot access name type)) dst 1
    return key ++ [.call ⟨access.fetch, none⟩] ++ last
  | src => direct src dst scale

def store (src : Operand) (scale : Float) : Operand → Synth (List Instruction)
  | .staged type via => do
    unitScale scale src (.staged type via)
    store src 1 via
  | .member none object name type => do
    unitScale scale src (.member none object name type)
    throw noAccess
  | .member (some access) object name type => do
    unitScale scale src (.member (some access) object name type)
    let key ← load (.score access.register) 1 object
    let last ← direct src (.slot (memberSlot access name type)) 1
    return key ++ [.call ⟨access.fetch, none⟩] ++ last
  | dst => direct src dst scale

/-- The instructions that copy `src` into `dst`, scaled where the way allows it. -/
def moveScaled (src dst : Operand) (scale : Float) : Synth (List Instruction) :=
  if src.isDerived then
    if dst.isDerived then throw (incompatible src dst) else load dst scale src
  else store src scale dst

def move (src dst : Operand) : Synth (List Instruction) := moveScaled src dst 1

end CommandPack.Transfer
