import CommandPack.Program.Basic

/-!
The outline of a program: what its parts are called, where they stand and how they nest.
-/

namespace CommandPack

inductive Outline where
  | part (label : String) (pos : Position) (inner : List Outline)

namespace Outline

mutual

/-- The parts from the outside in and from first to last; `enter` tells by the label whether to look
inside a part. -/
def visit (enter : String → Bool) : Outline → List (String × Position)
  | part label pos inner => (label, pos) :: if enter label then visitAll enter inner else []

def visitAll (enter : String → Bool) : List Outline → List (String × Position)
  | [] => []
  | o :: os => visit enter o ++ visitAll enter os

end

def ofTerm (t : Term) : Outline := part "Operand" t.pos []

def ofTest (t : Test) : Outline := part "Cond" t.pos (ofTerm t.left :: t.right.toList.map ofTerm)

def ofPiece : Piece → Outline
  | .text pos _ => part "Text" pos []
  | .style pos _ => part "Style" pos []
  | .term t => ofTerm t

mutual

def ofStmt : Stmt → Outline
  | .set pos var value => part "Set" pos [ofTerm var, ofTerm value]
  | .add pos var value => part "Add" pos [ofTerm var, ofTerm value]
  | .op pos var _ value => part "Op" pos [ofTerm var, ofTerm value]
  | .loop pos test body => part "While" pos (ofTest test :: ofStmts body)
  | .branch pos test yes none => part "If" pos (ofTest test :: ofStmts yes)
  | .branch pos test yes (some no) => part "If" pos (ofTest test :: ofStmts yes ++ ofStmts no)
  | .call pos _ arg => part "Call" pos (arg.toList.map ofTerm)
  | .leave pos value => part "Return" pos (value.toList.map ofTerm)
  | .command pos _ => part "Cmd" pos []
  | .print pos _ pieces => part "Print" pos (pieces.map ofPiece)
  | .create pos _ var => part "New" pos [ofTerm var]

def ofStmts : List Stmt → List Outline
  | [] => []
  | s :: ss => ofStmt s :: ofStmts ss

end

def ofFunction (f : FunctionDecl) : Outline := part "Function" f.pos (ofStmts f.body)

def ofClass (c : ClassDecl) : Outline := part "Class" c.pos (c.functions.map ofFunction)

def ofProgram (p : Program) : Outline :=
  part "Program" p.pos (p.vars.map (fun v => part "VarDecl" v.pos []) ++
    p.functions.map ofFunction ++ p.classes.map ofClass)

end Outline

end CommandPack
