import CommandPack.Tag.Basic
import CommandPack.Text.Blank
import CommandPack.Text.Quoted
import CommandPack.Decimal.Layout
import CommandPack.Decimal.Numeral

/-!
The written form of tags: `render` writes a tag, `read` reads one. Numbers carry a letter for their
type, texts are quoted, keys are written bare.
-/

namespace CommandPack.Tag

open Text Decimal

mutual

def render : Tag → String
  | byte n => toString n.toInt ++ "b"
  | short n => toString n.toInt ++ "s"
  | int n => toString n.toInt
  | long n => toString n.toInt ++ "L"
  | float x => renderSingle .plain x ++ "f"
  | double x => renderDouble .plain x ++ "d"
  | string s => quote s
  | list items => "[" ++ join "," (renderItems items) ++ "]"
  | compound fields => "\x7b" ++ join "," (renderFields fields) ++ "\x7d"

def renderItems : List Tag → List String
  | [] => []
  | t :: ts => render t :: renderItems ts

def renderFields : List (String × Tag) → List String
  | [] => []
  | (k, t) :: fs => (k ++ ":" ++ render t) :: renderFields fs

end

/-- Why a text is not a tag. `rest` is the unread text where reading stopped. -/
inductive ReadError where
  | trailing (rest : List Char)
  | ended
  | expected (c : Char) (rest : List Char)
  | emptyKey (rest : List Char)
  | expectedSeparator (close : Char) (rest : List Char)
  | unterminated

def ReadError.message (text : String) : ReadError → String
  | trailing rest => s!"unexpected {quote (String.ofList rest)} after value in {quote text}"
  | ended => s!"unexpected end of {quote text}"
  | expected c rest => s!"expected {quoteChar c} at offset {offset rest} of {quote text}"
  | emptyKey rest => s!"empty key at offset {offset rest} of {quote text}"
  | expectedSeparator close rest =>
    s!"expected ',' or {quoteChar close} at offset {offset rest} of {quote text}"
  | unterminated => s!"unterminated string in {quote text}"
where
  /-- Bytes of the text before the unread rest. -/
  offset (rest : List Char) : Nat := text.utf8ByteSize - (String.ofList rest).utf8ByteSize

def isGap (c : Char) : Bool := c == ' ' || c == '\t'

def skipGap (cs : List Char) : List Char := cs.dropWhile isGap

def endsWord (c : Char) : Bool :=
  c == ',' || c == ':' || c == ']' || c == '\x7d' || isGap c

/-- Reads the inside of a quoted text up to its mark. A backslash keeps the next character as it
is. -/
def readQuoted (mark : Char) (acc : List Char) : List Char → Except ReadError (String × List Char)
  | [] => .error .unterminated
  | '\\' :: c :: cs => readQuoted mark (c :: acc) cs
  | c :: cs =>
    if c = mark then .ok (String.ofList acc.reverse, cs) else readQuoted mark (c :: acc) cs

/-- A number whose type is told by its last character. -/
def suffixed? (body : String) (suffix : Char) : Option Tag :=
  match suffix with
  | 'b' | 'B' => (readInt? 8 body).map fun n => byte (Int8.ofInt n)
  | 's' | 'S' => (readInt? 16 body).map fun n => short (Int16.ofInt n)
  | 'l' | 'L' => (readInt? 64 body).map fun n => long (Int64.ofInt n)
  | 'f' | 'F' => (readSingle? body).map float
  | 'd' | 'D' => (readDouble? body).map double
  | _ => none

/-- A number without a type letter: a whole one is an int, one with a point or an exponent a
double. -/
def unsuffixed? (word : String) : Option Tag :=
  match readInt? 32 word with
  | some n => some (int (Int32.ofInt n))
  | none =>
    if word.toList.any fun c => c == '.' || c == 'e' || c == 'E' then (readDouble? word).map double
    else none

/-- What an unquoted word stands for. -/
def ofWord (cs : List Char) : Tag :=
  let word := String.ofList cs
  if word = "true" then byte 1
  else if word = "false" then byte 0
  else
    let typed := match cs.reverse with
      | c :: d :: body => suffixed? (String.ofList (d :: body).reverse) c
      | _ => none
    (typed <|> unsuffixed? word).getD (string word)

def expectChar (c : Char) (cs : List Char) : Except ReadError (List Char) :=
  match skipGap cs with
  | d :: rest => if d = c then .ok rest else .error (.expected c (d :: rest))
  | [] => .error (.expected c [])

def readKey (cs : List Char) : Except ReadError (String × List Char) :=
  let cs := skipGap cs
  let key := match cs with
    | '"' :: rest => readQuoted '"' [] rest
    | '\'' :: rest => readQuoted '\'' [] rest
    | cs => .ok (String.ofList (cs.takeWhile (!endsWord ·)), cs.dropWhile (!endsWord ·))
  match key with
  | .error e => .error e
  | .ok (k, rest) => if k.isEmpty then .error (.emptyKey rest) else .ok (k, rest)

/-- A list may start with a letter that tells the type of its items; it is read like any other. -/
def skipItemType : List Char → List Char
  | c :: ';' :: rest => if c = 'B' ∨ c = 'I' ∨ c = 'L' then rest else c :: ';' :: rest
  | cs => cs

mutual

/-- Reads a tag at the front of the text. `fuel` bounds the number of steps; two per character are
enough. -/
def readValue : (fuel : Nat) → List Char → Except ReadError (Tag × List Char)
  | 0, _ => .error .ended
  | fuel + 1, cs =>
    match skipGap cs with
    | [] => .error .ended
    | '\x00' :: _ => .error .ended
    | '\x7b' :: rest =>
      match skipGap rest with
      | '\x7d' :: rest => .ok (compound [], rest)
      | rest => readFields fuel [] rest
    | '[' :: rest =>
      match skipGap (skipItemType rest) with
      | ']' :: rest => .ok (list [], rest)
      | rest => readItems fuel [] rest
    | '"' :: rest => (readQuoted '"' [] rest).map fun (s, rest) => (string s, rest)
    | '\'' :: rest => (readQuoted '\'' [] rest).map fun (s, rest) => (string s, rest)
    | cs => .ok (ofWord (cs.takeWhile (!endsWord ·)), cs.dropWhile (!endsWord ·))

/-- Reads the fields of a compound, after its opening brace or a comma. -/
def readFields : (fuel : Nat) → Dict Tag → List Char → Except ReadError (Tag × List Char)
  | 0, _, _ => .error .ended
  | fuel + 1, fields, cs => do
    let (key, rest) ← readKey cs
    let rest ← expectChar ':' rest
    let (value, rest) ← readValue fuel rest
    let fields := Dict.insert key value fields
    match skipGap rest with
    | ',' :: rest => readFields fuel fields rest
    | '\x7d' :: rest => .ok (compound fields, rest)
    | rest => .error (.expectedSeparator '\x7d' rest)

/-- Reads the items of a list, after its opening bracket or a comma; `items` holds those read so
far, last one first. -/
def readItems : (fuel : Nat) → List Tag → List Char → Except ReadError (Tag × List Char)
  | 0, _, _ => .error .ended
  | fuel + 1, items, cs => do
    let (value, rest) ← readValue fuel cs
    match skipGap rest with
    | ',' :: rest => readItems fuel (value :: items) rest
    | ']' :: rest => .ok (list (value :: items).reverse, rest)
    | rest => .error (.expectedSeparator ']' rest)

end

def read (text : String) : Except ReadError Tag := do
  let (value, rest) ← readValue (2 * text.length + 2) text.toList
  match skipGap rest with
  | [] => .ok value
  | rest => .error (.trailing rest)

end CommandPack.Tag
