import CommandPack.Text.Quoted

/-!
Splitting a command into words. Blanks inside brackets, braces and quoted texts do not separate
words.
-/

namespace CommandPack.Machine

open Text

/-- Why a command does not split into words. -/
inductive WordError where
  | unbalanced (close : Char)
  | unterminated
  | unclosed

def WordError.message (line : String) : WordError → String
  | unbalanced close => s!"unbalanced {quoteChar close} in {quote line}"
  | unterminated => s!"unterminated string in {quote line}"
  | unclosed => s!"unbalanced brackets in {quote line}"

/-- Where in a command the splitter is: the word it is in, last character first, the number of open
brackets and the mark of the quoted text it is in. -/
structure WordState where
  word : Option (List Char) := none
  depth : Nat := 0
  mark : Option Char := none

namespace WordState

def push (st : WordState) (c : Char) : WordState :=
  { st with word := some (c :: st.word.getD []) }

def words (st : WordState) : List String :=
  match st.word with
  | some w => [String.ofList w.reverse]
  | none => []

/-- The state after a character that is neither in a quoted text nor a blank between words. -/
def step (st : WordState) (c : Char) : Except WordError WordState :=
  if c = '"' ∨ c = '\'' then
    if st.word.isNone ∨ st.depth > 0 then .ok { st.push c with mark := some c } else .ok (st.push c)
  else if c = '[' ∨ c = '\x7b' then .ok { st.push c with depth := st.depth + 1 }
  else if c = ']' ∨ c = '\x7d' then
    if st.depth = 0 then .error (.unbalanced c) else .ok { st.push c with depth := st.depth - 1 }
  else .ok (st.push c)

end WordState

def scanWords (st : WordState) : List Char → Except WordError (List String)
  | [] =>
    if st.mark.isSome then .error .unterminated
    else if st.depth ≠ 0 then .error .unclosed
    else .ok st.words
  | c :: cs =>
    match st.mark with
    | some mark =>
      if c = '\\' then
        match cs with
        | [] => .error .unterminated
        | d :: cs => scanWords ((st.push c).push d) cs
      else if c = mark then scanWords { st.push c with mark := none } cs
      else scanWords (st.push c) cs
    | none =>
      if (c = ' ' ∨ c = '\t') ∧ (st.depth = 0 ∨ st.word.isNone) then
        (st.words ++ ·) <$> scanWords { st with word := none } cs
      else
        match st.step c with
        | .error e => .error e
        | .ok st => scanWords st cs

def splitWords (line : String) : Except WordError (List String) :=
  scanWords {} line.toList

end CommandPack.Machine
