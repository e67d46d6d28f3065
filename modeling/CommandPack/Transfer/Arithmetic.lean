import CommandPack.Transfer.Move

/-!
Arithmetic in place: scoreboard operations and additions.
-/

namespace CommandPack.Transfer

open Text

def operations : List String := ["%=", "*=", "+=", "-=", "/=", "<", "=", ">", "><"]

def checkOperation (op : String) : Except Problem Unit :=
  if operations.contains op then .ok ()
  else .error (.unsupported s!"unknown scoreboard operation {quote op}")

def scoreOp (dst : Score) (op : String) (other : Score) : Except Problem (List Instruction) := do
  checkOperation op
  return [.literal ("scoreboard players operation %s %s " ++ op ++ " %s %s")
    [dst.player, dst.objective, other.player, other.objective]]

/-- Applies an operator to a score with any number, which is first moved into a temporary score
unless it is one. -/
def exprOp (dst : Score) (op : String) (other : Operand) : Synth (List Instruction) := do
  match other with
  | .score s => scoreOp dst op s
  | _ =>
    let temp ← Synth.temp "expr_op_temp"
    let before ← move other (.score temp)
    return before ++ (← scoreOp dst op temp)

def negate64 (n : Int) : Int := if n = -9223372036854775808 then n else -n

def addToScore (dst : Score) (n : Int) : Instruction :=
  if n < 0 then .literal s!"scoreboard players remove %s %s {negate64 n}" [dst.player, dst.objective]
  else .literal s!"scoreboard players add %s %s {n}" [dst.player, dst.objective]

/-- Adds to a double: a marker takes it as a coordinate and is teleported by the increment. -/
def addToDouble (dst : Slot) (n : Float) : Synth (List Instruction) := do
  let tag ← Synth.mark "add_const_marker"
  let marker ← Synth.symbol .composite "@e[tag=%s,limit=1]" none [.sym tag]
  let pos : Operand := .slot (.onEntity (.sym marker) "Pos[0]" .double)
  let before ← move (.slot dst) pos
  let after ← move pos (.slot dst)
  return [.literal "summon minecraft:marker 0 0 0 \x7bTags:[\"%s\"]\x7d" [.sym tag]] ++ before ++
    [.literal ("execute as %s at @s run tp @s ~" ++ formatScale n ++ " ~ ~") [.sym marker]] ++
    after ++ [.literal "kill %s" [.sym marker]]

def isWhole (n : Float) : Bool :=
  match Decimal.Class.ofBits .double n.toBits.toNat with
  | .nan => false
  | .infinite _ => true
  | .finite _ m e => m % Nat.pow 2 (-e).toNat == 0

def addToSlot (dst : Slot) (delta : Operand) (n : Float) : Synth (List Instruction) := do
  if ¬ dst.type.isA .number then
    throw (.incompatible s!"cannot add {delta.display} to non-number {dst.display}")
  else if dst.type = .double then addToDouble dst n
  else if dst.type.isConcrete ∧ dst.type.isA .wholeNumber then
    if ¬ isWhole n then
      throw (.incompatible s!"cannot add fractional {delta.display} to {dst.display}")
    let temp ← Synth.temp "add_const_temp"
    let before ← move (.slot dst) (.score temp)
    let after ← move (.score temp) (.slot dst)
    return before ++ [addToScore temp (Decimal.truncToInt64 n)] ++ after
  else
    throw (.unsupported s!"adding to {dst.type.render} variable {dst.display} is not supported")

def addConst (dst : Operand) (type : DataType) (text : String) : Synth (List Instruction) := do
  let delta := Operand.const type text
  if ¬ type.isA .number then
    throw (.incompatible s!"cannot add non-number {delta.display} to {dst.display}")
  match Operand.numberOf? text with
  | none => throw (.incompatible
      s!"cannot add {delta.display} to {dst.display}: {Operand.notNumeric text}")
  | some n =>
    match dst with
    | .score s =>
      if ¬ isWhole n then
        throw (.incompatible s!"cannot add fractional {delta.display} to score {dst.display}")
      return [addToScore s (Decimal.truncToInt64 n)]
    | .slot s => addToSlot s delta n
    | _ => throw (.unsupported s!"adding {delta.display} to {dst.display} is not supported")

def addInPlace (dst delta : Operand) : Synth (List Instruction) :=
  match delta, dst with
  | .const type text, _ => addConst dst type text
  | .score d, .score s => scoreOp s "+=" d
  | .slot d, .score s =>
    if ¬ d.type.isA .wholeNumber then
      throw (.incompatible
        s!"cannot add {delta.display} to {dst.display}: the increment must be a whole number")
    else exprOp s "+=" delta
  | .staged .., .score s | .member .., .score s => exprOp s "+=" delta
  | _, .slot _ =>
    throw (.unsupported
      s!"adding {delta.display} to structured variable {dst.display} is not supported")
  | _, _ => throw (.incompatible s!"cannot add {delta.display} to {dst.display}")

end CommandPack.Transfer
