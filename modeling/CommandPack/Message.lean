import CommandPack.Transfer.Move

/-!
Messages: text, styles and values shown to players.
-/

namespace CommandPack

open Text

inductive Part where
  | text (s : String)
  /-- Changes the style of all that follows; a key without a value is removed from it. -/
  | style (changes : Dict (Option Datum))
  | raw (fields : Dict Datum)
  | value (v : Operand)
  /-- Something that cannot be shown, with the name of its type. -/
  | other (type : String)

namespace Message

def restyle (style : Dict Datum) : Dict (Option Datum) → Dict Datum
  | [] => style
  | (k, some v) :: changes => restyle (style.insert k v) changes
  | (k, none) :: changes => restyle (style.erase k) changes

/-- What shows a value that is not derived. The text of a constant is shown without its quotes. -/
def content (v : Operand) : Except Problem Content :=
  match v with
  | .const _ text => .ok (.text ((unquote? text).getD text))
  | .score s => .ok (.score s)
  | .slot s => .ok (.data s.container s.target s.path)
  | _ => .error (.unsupported s!"cannot print {v.display}")

/-- The instructions that copy derived values below `scratch`, and the components. `staged` counts
the values copied so far. -/
def assemble (scratch : Option Slot) :
    (style : Dict Datum) → (staged : Nat) → List Part → Synth (List Instruction × List Component)
  | _, _, [] => return ([], [])
  | style, staged, .text s :: parts => do
    let (before, cs) ← assemble scratch style staged parts
    return (before, ⟨style, .text s⟩ :: cs)
  | style, staged, .style changes :: parts => assemble scratch (restyle style changes) staged parts
  | style, staged, .raw fields :: parts => do
    let (before, cs) ← assemble scratch style staged parts
    return (before, ⟨style.merge fields, .nothing⟩ :: cs)
  | style, staged, .value v :: parts => do
    if v.isDerived then
      match scratch with
      | none => throw (.unsupported s!"cannot print derived value {v.display} without a scratch slot")
      | some scratch =>
        let slot := scratch.sub s!"text{staged}" v.type
        let copy ← Transfer.move v (.slot slot)
        let (before, cs) ← assemble (some scratch) style (staged + 1) parts
        return (copy ++ before, ⟨style, .data slot.container slot.target slot.path⟩ :: cs)
    else
      let c ← content v
      let (before, cs) ← assemble scratch style staged parts
      return (before, ⟨style, c⟩ :: cs)
  | _, _, .other type :: _ =>
    throw (.unsupported s!"cannot print {type}; use a string, Style, Component or value")

def print (scratch : Option Slot) (target : Name) (parts : List Part) :
    Synth (List Instruction) := do
  let (before, cs) ← assemble scratch [] 0 parts
  return before ++ [.tellraw target cs]

def log (scratch : Option Slot) (label : String) (parts : List Part) : Synth (List Instruction) :=
  print scratch (.lit "@a")
    ([.style [("color", some (.string "light_purple"))], .text ("[" ++ label ++ "]"),
      .style [("color", none)], .text " "] ++ parts)

end Message

end CommandPack
