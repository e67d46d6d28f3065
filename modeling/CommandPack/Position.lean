/-!
Places in a document.
-/

namespace CommandPack

/-- A line and a column, counted from 1. -/
structure Position where
  line : Int := 0
  column : Int := 0
deriving DecidableEq, Inhabited

namespace Position

def isSet (p : Position) : Bool := decide (0 < p.line)

def text (p : Position) : String := s!"{p.line}:{p.column}"

end Position

end CommandPack
