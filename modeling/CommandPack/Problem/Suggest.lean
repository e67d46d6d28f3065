import CommandPack.Text.Lower
import CommandPack.Text.Blank

/-!
Suggestions for misspelt names: the candidates nearest by edit distance.
-/

namespace CommandPack

open Text

/-- The next row of the distance table: `left` is the entry to the left, `row` the previous row from
the entry above the left one on. -/
def nextRow (a : Char) : (left : Nat) → (row : List Nat) → List Char → List Nat
  | left, diag :: up :: row, b :: bs =>
    let d := min (min (up + 1) (left + 1)) (diag + if a = b then 0 else 1)
    d :: nextRow a d (up :: row) bs
  | _, _, _ => []

def lastRow (bs : List Char) : (i : Nat) → (row : List Nat) → List Char → List Nat
  | _, row, [] => row
  | i, row, a :: as => lastRow bs (i + 1) ((i + 1) :: nextRow a (i + 1) row bs) as

/-- The least number of insertions, deletions and substitutions that turn one text into the
other. -/
def editDistance (a b : List Char) : Nat :=
  (lastRow b 0 (List.range (b.length + 1)) a).getLastD 0

/-- How far a suggestion for a name may be; short names allow less. -/
def suggestionRadius (name : String) : Nat :=
  if name.utf8ByteSize ≤ 3 then 1 else if name.utf8ByteSize ≤ 5 then 2 else 3

def maxSuggestions : Nat := 3

/-- The nearest candidates, nearest first and then in text order. -/
def suggest (name : String) (candidates : List String) : List String :=
  if name.isEmpty then []
  else
    let target := lower name
    let near := candidates.filterMap fun c =>
      if c.isEmpty ∨ lower c = target then none
      else
        let d := editDistance target.toList (lower c).toList
        if d ≤ suggestionRadius name then some (d, c) else none
    let sorted := near.mergeSort fun a b => a.1 < b.1 || (a.1 == b.1 && decide (a.2 ≤ b.2))
    (sorted.take maxSuggestions).map (·.2)

def suggestionHint : List String → String
  | [] => ""
  | [s] => s!"did you mean '{s}'?"
  | ss => "did you mean one of: " ++ join ", " (ss.map fun s => s!"'{s}'") ++ "?"

end CommandPack
