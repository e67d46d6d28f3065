/-!
Blank characters, trimming and splitting on blanks.
-/

namespace CommandPack.Text

/-- The white space characters: the ASCII controls tab to carriage return, the space, next line and
the space separators. -/
def isBlank (c : Char) : Bool :=
  let n := c.toNat
  (0x9 ≤ n && n ≤ 0xd) || n == 0x20 || n == 0x85 || n == 0xa0 || n == 0x1680 ||
    (0x2000 ≤ n && n ≤ 0x200a) || n == 0x2028 || n == 0x2029 || n == 0x202f || n == 0x205f ||
    n == 0x3000

def trimChars (cs : List Char) : List Char :=
  ((cs.dropWhile isBlank).reverse.dropWhile isBlank).reverse

def trim (s : String) : String :=
  String.ofList (trimChars s.toList)

/-- The maximal blank-free pieces of `cs`; `piece` holds the piece read so far, last character
first. -/
def fieldsFrom (piece : List Char) : List Char → List (List Char)
  | [] => if piece.isEmpty then [] else [piece.reverse]
  | c :: cs =>
    if isBlank c then
      if piece.isEmpty then fieldsFrom [] cs else piece.reverse :: fieldsFrom [] cs
    else fieldsFrom (c :: piece) cs

def fields (s : String) : List String :=
  (fieldsFrom [] s.toList).map String.ofList

def splitChars (sep : Char) : List Char → List (List Char)
  | [] => [[]]
  | c :: cs =>
    if c = sep then [] :: splitChars sep cs
    else match splitChars sep cs with
      | [] => [[c]]
      | piece :: rest => (c :: piece) :: rest

def split (sep : Char) (s : String) : List String :=
  (splitChars sep s.toList).map String.ofList

def cut? (sep : Char) (s : String) : Option (String × String) :=
  match s.toList.span (· != sep) with
  | (_, []) => none
  | (before, _ :: after) => some (String.ofList before, String.ofList after)

def dropLead? : (p cs : List Char) → Option (List Char)
  | [], cs => some cs
  | _ :: _, [] => none
  | a :: p, c :: cs => if a = c then dropLead? p cs else none

def stripLead (p s : String) : String :=
  match dropLead? p.toList s.toList with
  | some rest => String.ofList rest
  | none => s

def hasLead (p s : String) : Bool :=
  (dropLead? p.toList s.toList).isSome

def cutText? (sep : List Char) : List Char → Option (List Char × List Char)
  | [] => if sep.isEmpty then some ([], []) else none
  | c :: cs =>
    match dropLead? sep (c :: cs) with
    | some after => some ([], after)
    | none => (cutText? sep cs).map fun (before, after) => (c :: before, after)

def join (sep : String) (parts : List String) : String :=
  sep.intercalate parts

end CommandPack.Text
