import CommandPack.Operand
import CommandPack.Datum

/-!
Instructions: commands whose names are not final yet, and how they become text.
-/

namespace CommandPack

open Text

/-- What a call names. A grouping of blocks has an entry and cannot be called itself. -/
structure Target where
  path : Path
  entry : Option Path := none

inductive Content where
  | nothing
  | text (s : String)
  | score (s : Score)
  | data (container : Container) (target : Name) (path : String)

def Content.names : Content → List Name
  | nothing | text _ => []
  | score s => [s.player, s.objective]
  | data _ target _ => [target]

structure Component where
  style : Dict Datum
  content : Content := .nothing

inductive Instruction where
  | literal (template : String) (args : List Name)
  | call (target : Target)
  | composed (parts : List Instruction)
  | tellraw (target : Name) (components : List Component)

abbrev Render := ExceptT Failure (StateM SymbolTable)

def Render.resolve (n : Name) : Render String := fun t =>
  let (r, t) := (SymbolTable.resolve n).run t
  (r.mapError .problem, t)

def Content.addTo (fields : Dict Datum) : Content → Render (Dict Datum)
  | nothing => return fields
  | text s => return fields.insert "text" (.string s)
  | score s => do
    let player ← Render.resolve s.player
    let objective ← Render.resolve s.objective
    return fields.insert "score"
      (.dict [("name", .string player), ("objective", .string objective)])
  | data container target path => do
    let target ← Render.resolve target
    return (fields.insert "nbt" (.string path)).insert container.name (.string target)

def Component.resolveAll : List Component → Render (List Datum)
  | [] => return []
  | c :: cs => do
    let fields ← c.content.addTo c.style
    return .dict fields :: (← resolveAll cs)

namespace Instruction

def text (s : String) : Instruction := literal (escapeTemplate s) []

def comment (s : String) : Instruction := text ("\n# " ++ s)

def say (message : String) : Instruction := text ("say " ++ message)

def checkedCall : Option Target → Except Problem Instruction
  | none => .error (.invariant "call target is nil")
  | some t =>
    match t.entry with
    | some e => .error (.invariant
        s!"call target {t.path.joined} is a compile-time grouping; call its entry point {e.joined} instead")
    | none => .ok (call t)

def isComment : Instruction → Bool
  | literal template _ => hasLead "#" (trim template)
  | _ => false

mutual

def symbols : Instruction → List Symbol
  | literal _ args => Name.collect args
  | call _ => []
  | composed parts => symbolsOf parts
  | tellraw target components =>
    Name.collect (target :: components.flatMap (·.content.names))

def symbolsOf : List Instruction → List Symbol
  | [] => []
  | p :: ps => symbols p ++ symbolsOf ps

end

def resolveArgs : List Name → Render (List String)
  | [] => return []
  | n :: ns => do
    let text ← Render.resolve n
    return text :: (← resolveArgs ns)

mutual

def render : Instruction → Render String
  | literal template args => do
    let n := placeholders template.toList
    if n ≠ args.length then throw (.problem (templateMismatch template n args.length))
    let texts ← resolveArgs args
    match fill template texts with
    | .ok line => return line
    | .error p => throw (.problem p)
  | call t =>
    if t.entry.isSome then
      throw (.problem (.invariant s!"cannot call {t.path.joined} directly; call its entry point"))
    else return "function " ++ t.path.joined
  | composed parts => do return join " " (← renderAll parts)
  | tellraw target components => do
    let who ← Render.resolve target
    let shown ← Component.resolveAll components
    match Datum.toJson (.list (.string "" :: shown)) with
    | .ok j => return "tellraw " ++ who ++ " " ++ j.render .bare
    | .error e => throw (.plain e.message)

def renderAll : List Instruction → Render (List String)
  | [] => return []
  | p :: ps => do
    let text ← render p
    return text :: (← renderAll ps)

end

end Instruction

end CommandPack
