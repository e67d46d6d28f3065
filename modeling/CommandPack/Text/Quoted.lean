import CommandPack.Text.Printable

/-!
Quoted text: a text between quote marks in which the mark, the backslash and everything that is not
printable are written as escapes. `encode` writes, `unquote?` reads.
-/

namespace CommandPack.Text

def hexDigit (n : Nat) : Char :=
  if n < 10 then Char.ofNat (48 + n) else Char.ofNat (87 + n)

def hexPadded : (width n : Nat) → List Char
  | 0, _ => []
  | w + 1, n => hexPadded w (n / 16) ++ [hexDigit (n % 16)]

def controlLetter? (c : Char) : Option Char :=
  match c.toNat with
  | 7 => some 'a'
  | 8 => some 'b'
  | 12 => some 'f'
  | 10 => some 'n'
  | 13 => some 'r'
  | 9 => some 't'
  | 11 => some 'v'
  | _ => none

/-- One character of a text quoted with `mark`. -/
def escapeChar (mark c : Char) : List Char :=
  if c = mark ∨ c = '\\' then ['\\', c]
  else if isPrintable c then [c]
  else match controlLetter? c with
    | some l => ['\\', l]
    | none =>
      if c.toNat < 0x80 then '\\' :: 'x' :: hexPadded 2 c.toNat
      else if c.toNat < 0x10000 then '\\' :: 'u' :: hexPadded 4 c.toNat
      else '\\' :: 'U' :: hexPadded 8 c.toNat

def encode (mark : Char) (cs : List Char) : List Char :=
  mark :: cs.flatMap (escapeChar mark) ++ [mark]

def quote (s : String) : String :=
  String.ofList (encode '"' s.toList)

def quoteChar (c : Char) : String :=
  String.ofList (encode '\'' [c])

def hexValue? (c : Char) : Option Nat :=
  if '0' ≤ c ∧ c ≤ '9' then some (c.toNat - 48)
  else if 'a' ≤ c ∧ c ≤ 'f' then some (c.toNat - 87)
  else if 'A' ≤ c ∧ c ≤ 'F' then some (c.toNat - 55)
  else none

/-- The value of the first `n` characters as digits of the given base, and the rest. -/
def readDigits? (base : Nat) : (n acc : Nat) → List Char → Option (Nat × List Char)
  | 0, acc, cs => some (acc, cs)
  | _ + 1, _, [] => none
  | n + 1, acc, c :: cs =>
    match hexValue? c with
    | some v => if v < base then readDigits? base n (acc * base + v) cs else none
    | none => none

def utf8Bytes (c : Char) : List UInt8 :=
  (String.ofList [c]).toUTF8.toList

/-- A code point that is not a surrogate and not above the last plane. -/
def isScalar (n : Nat) : Bool :=
  n < 0xd800 || (0xe000 ≤ n && n < 0x110000)

/-- Reads one character or escape of a text quoted with `mark`, as bytes. -/
def readUnit? (mark : Char) : List Char → Option (List UInt8 × List Char)
  | [] => none
  | '\\' :: cs =>
    match cs with
    | [] => none
    | 'a' :: r => some ([7], r)
    | 'b' :: r => some ([8], r)
    | 'f' :: r => some ([12], r)
    | 'n' :: r => some ([10], r)
    | 'r' :: r => some ([13], r)
    | 't' :: r => some ([9], r)
    | 'v' :: r => some ([11], r)
    | '\\' :: r => some ([92], r)
    | 'x' :: r => (readDigits? 16 2 0 r).map fun (v, r) => ([v.toUInt8], r)
    | 'u' :: r =>
      match readDigits? 16 4 0 r with
      | some (v, r) => if isScalar v then some (utf8Bytes (Char.ofNat v), r) else none
      | none => none
    | 'U' :: r =>
      match readDigits? 16 8 0 r with
      | some (v, r) => if isScalar v then some (utf8Bytes (Char.ofNat v), r) else none
      | none => none
    | c :: r =>
      if '0' ≤ c ∧ c ≤ '7' then
        match readDigits? 8 3 0 (c :: r) with
        | some (v, r) => if v ≤ 255 then some ([v.toUInt8], r) else none
        | none => none
      else if c = mark then some ([c.toNat.toUInt8], r)
      else none
  | c :: cs => if c = mark ∨ c = '\n' then none else some (utf8Bytes c, cs)

/-- Reads units up to the closing mark, which has to be the last character. `left` bounds the
number of units. -/
def readUnits? (mark : Char) : (left : Nat) → List Char → Option (List UInt8)
  | 0, _ => none
  | left + 1, cs =>
    match cs with
    | [c] => if c = mark then some [] else none
    | cs =>
      match readUnit? mark cs with
      | some (bytes, rest) => (readUnits? mark left rest).map (bytes ++ ·)
      | none => none

/-- Continuation bytes of the character that `b` starts, and the bits `b` contributes. -/
def leadByte? (b : UInt8) : Option (Nat × Nat) :=
  let n := b.toNat
  if n < 0x80 then some (0, n)
  else if 0xc2 ≤ n ∧ n < 0xe0 then some (1, n - 0xc0)
  else if 0xe0 ≤ n ∧ n < 0xf0 then some (2, n - 0xe0)
  else if 0xf0 ≤ n ∧ n < 0xf5 then some (3, n - 0xf0)
  else none

def takeContinuation? : (n acc : Nat) → List UInt8 → Option (Nat × List UInt8)
  | 0, acc, bs => some (acc, bs)
  | _ + 1, _, [] => none
  | n + 1, acc, b :: bs =>
    if 0x80 ≤ b.toNat ∧ b.toNat < 0xc0 then takeContinuation? n (acc * 64 + (b.toNat - 0x80)) bs
    else none

/-- The first character of a byte sequence, if it is well formed and no longer than needed. -/
def decodeFirst? : List UInt8 → Option (Char × List UInt8)
  | [] => none
  | b :: bs =>
    match leadByte? b with
    | none => none
    | some (n, bits) =>
      match takeContinuation? n bits bs with
      | none => none
      | some (v, rest) =>
        let least := if n = 2 then 0x800 else if n = 3 then 0x10000 else 0
        if isScalar v ∧ least ≤ v then some (Char.ofNat v, rest) else none

/-- Reads UTF-8; a byte that starts no character becomes the replacement character. `left` bounds
the number of characters. -/
def decodeLossy : (left : Nat) → List UInt8 → List Char
  | 0, _ => []
  | left + 1, bs =>
    match bs with
    | [] => []
    | _ :: rest =>
      match decodeFirst? bs with
      | some (c, rest) => c :: decodeLossy left rest
      | none => '�' :: decodeLossy left rest

/-- Reads a text in double quotes, at most one character in single quotes or a raw text in
backquotes. -/
def unquote? (s : String) : Option String :=
  match s.toList with
  | '"' :: cs =>
    (readUnits? '"' (cs.length + 1) cs).map fun bs => String.ofList (decodeLossy bs.length bs)
  | ['\'', '\''] => some ""
  | '\'' :: cs =>
    match readUnit? '\'' cs with
    | some (bs, ['\'']) => some (String.ofList (decodeLossy bs.length bs))
    | _ => none
  | '\x60' :: cs =>
    match cs.reverse with
    | '\x60' :: rev =>
      if rev.contains '\x60' then none
      else some (String.ofList (rev.reverse.filter (· != '\r')))
    | _ => none
  | _ => none

end CommandPack.Text
