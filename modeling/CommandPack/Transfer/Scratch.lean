import CommandPack.Instruction

/-!
The state of a compilation that moving values needs: symbol numbers, temporary names, and the
warnings with what is being compiled.
-/

namespace CommandPack

structure Scratch where
  nextSymbol : Int := 0
  owner : Option Path := none
  tempObjective : Name := .lit "dp_temp"
  temps : List (String × Score) := []
  marks : List (String × Symbol) := []
  context : List String := []
  warnings : Array Warning := #[]
  silent : Bool := false

/-- Making instructions may fail; symbols, temporaries and warnings made before stay. -/
abbrev Synth := ExceptT Problem (StateM Scratch)

namespace Synth

def symbol (kind : SymbolKind) (text : String) (owner : Option Path) (args : List Name) :
    Synth Symbol := do
  let s ← get
  set { s with nextSymbol := s.nextSymbol + 1 }
  return ⟨s.nextSymbol, kind, text, owner, args⟩

/-- The temporary score for a purpose. Temporaries hold a value within one sequence of commands, so
each purpose has one. -/
def temp (purpose : String) : Synth Score := do
  match (← get).temps.lookup purpose with
  | some v => return v
  | none =>
    let player ← symbol .player purpose (← get).owner []
    let v : Score := ⟨.sym player, (← get).tempObjective⟩
    modify fun s => { s with temps := (purpose, v) :: s.temps }
    return v

/-- The temporary tag for a purpose. -/
def mark (purpose : String) : Synth Symbol := do
  match (← get).marks.lookup purpose with
  | some t => return t
  | none =>
    let t ← symbol .tag purpose (← get).owner []
    modify fun s => { s with marks := (purpose, t) :: s.marks }
    return t

def warn (kind : WarningKind) (message : String) : Synth Unit :=
  modify fun s =>
    if s.silent then s
    else { s with warnings := s.warnings.push { kind := some kind, message, context := s.context } }

def enter (frame : String) : Synth Unit :=
  modify fun s => if s.silent then s else { s with context := s.context ++ [frame] }

def exit : Synth Unit := modify fun s => { s with context := s.context.dropLast }

end Synth

end CommandPack
