import CommandPack.Text.Quoted
import CommandPack.Decimal.Binary

/-!
Numerals: integers with an optional sign, and floating-point numbers in decimal or hexadecimal
notation. Reading refuses what is malformed or out of range.
-/

namespace CommandPack.Decimal

open Text

def natOfDigits? (base : Nat) (cs : List Char) : Option Nat :=
  if cs.isEmpty then none
  else cs.foldl (fun acc c => do
    let n ← acc
    let v ← hexValue? c
    if v < base then some (n * base + v) else none) (some 0)

def splitSign : List Char → Bool × List Char
  | '-' :: cs => (true, cs)
  | '+' :: cs => (false, cs)
  | cs => (false, cs)

/-- `n` or `-n` if it fits in a two's complement word of `bits` bits. -/
def signedWithin? (bits : Nat) (negative : Bool) (n : Nat) : Option Int :=
  let limit := Nat.pow 2 (bits - 1)
  if negative then if n ≤ limit then some (-n) else none
  else if n < limit then some n else none

def readInt? (bits : Nat) (s : String) : Option Int :=
  let (negative, cs) := splitSign s.toList
  (natOfDigits? 10 cs).bind (signedWithin? bits negative)

/-- A decimal integer, moved to the nearest one that fits in `bits` bits; what is no integer counts
as zero. -/
def readClamped (bits : Nat) (s : String) : Int :=
  let (negative, cs) := splitSign s.toList
  match natOfDigits? 10 cs with
  | none => 0
  | some n =>
    let limit := Nat.pow 2 (bits - 1)
    (signedWithin? bits negative n).getD (if negative then -limit else limit - 1)

/-- State of the check that underscores only separate digits. -/
inductive Gap where
  | start | digit | underscore | other
deriving DecidableEq

/-- Does every underscore stand between digits? -/
def underscoresOkFrom (hex : Bool) : Gap → List Char → Bool
  | g, [] => g != .underscore
  | g, c :: cs =>
    if ('0' ≤ c ∧ c ≤ '9') ∨ (hex ∧ (hexValue? c).isSome) then underscoresOkFrom hex .digit cs
    else if c = '_' then g == .digit && underscoresOkFrom hex .underscore cs
    else g != .underscore && underscoresOkFrom hex .other cs

/-- A base mark such as `0x` counts as a digit. -/
def underscoresOk (cs : List Char) : Bool :=
  match (splitSign cs).2 with
  | '0' :: c :: rest =>
    if c = 'x' ∨ c = 'X' then underscoresOkFrom true .digit rest
    else if c = 'b' ∨ c = 'B' ∨ c = 'o' ∨ c = 'O' then underscoresOkFrom false .digit rest
    else underscoresOkFrom false .start ('0' :: c :: rest)
  | rest => underscoresOkFrom false .start rest

/-- An integer whose base is told by its first characters: `0x`, `0o` or `0`, `0b`, else decimal.
Underscores may separate digits. -/
def readMarkedInt? (bits : Nat) (s : String) : Option Int :=
  let (negative, cs) := splitSign s.toList
  let (base, body) := match cs with
    | '0' :: c :: rest =>
      if (c = 'x' ∨ c = 'X') ∧ ¬ rest.isEmpty then (16, rest)
      else if (c = 'b' ∨ c = 'B') ∧ ¬ rest.isEmpty then (2, rest)
      else if (c = 'o' ∨ c = 'O') ∧ ¬ rest.isEmpty then (8, rest)
      else (8, c :: rest)
    | cs => (10, cs)
  if body.contains '_' ∧ ¬ underscoresOk s.toList then none
  else (natOfDigits? base (body.filter (· != '_'))).bind (signedWithin? bits negative)

/-- A floating-point numeral: `digits * base ^ -fraction * radix ^ exponent`, where the radix is 10
for base 10 and 2 for base 16. -/
structure FloatNumeral where
  negative : Bool
  hex : Bool
  digits : Nat
  fraction : Nat
  exponent : Int

structure MantissaScan where
  digits : Nat
  fraction : Nat
  sawPoint : Bool
  sawDigit : Bool

/-- Reads digits, underscores and at most one point, up to the first other character. -/
def scanMantissa (base : Nat) (m : MantissaScan) : List Char → MantissaScan × List Char
  | [] => (m, [])
  | c :: cs =>
    if c = '_' then scanMantissa base m cs
    else if c = '.' then
      if m.sawPoint then (m, c :: cs) else scanMantissa base { m with sawPoint := true } cs
    else match hexValue? c with
      | some v =>
        if v < base then
          scanMantissa base { m with
            digits := m.digits * base + v
            fraction := if m.sawPoint then m.fraction + 1 else m.fraction
            sawDigit := true } cs
        else (m, c :: cs)
      | none => (m, c :: cs)

/-- The exponent after its mark: a sign and digits, which underscores may separate. -/
def readExponent? (cs : List Char) : Option Int :=
  let (negative, body) := splitSign cs
  match body with
  | c :: _ =>
    if '0' ≤ c ∧ c ≤ '9' then
      (natOfDigits? 10 (body.filter (· != '_'))).map fun n => if negative then -n else n
    else none
  | [] => none

/-- Splits off the mark of base 16; true if there is one with something after it. -/
def splitHex : List Char → Bool × List Char
  | '0' :: c :: d :: rest =>
    if c = 'x' ∨ c = 'X' then (true, d :: rest) else (false, '0' :: c :: d :: rest)
  | cs => (false, cs)

def FloatNumeral.read? (cs : List Char) : Option FloatNumeral := do
  let (negative, body) := splitSign cs
  let (hex, body) := splitHex body
  let (m, rest) := scanMantissa (if hex then 16 else 10) ⟨0, 0, false, false⟩ body
  guard m.sawDigit
  guard (¬ cs.contains '_' ∨ underscoresOk cs)
  match rest with
  | [] => if hex then none else some ⟨negative, hex, m.digits, m.fraction, 0⟩
  | c :: rest =>
    if (hex ∧ (c = 'p' ∨ c = 'P')) ∨ (¬ hex ∧ (c = 'e' ∨ c = 'E')) then
      (readExponent? rest).map fun e => ⟨negative, hex, m.digits, m.fraction, e⟩
    else none

/-- The bits of the nearest value of the format, none if the numeral is out of range. -/
def FloatNumeral.bits? (f : Format) (x : FloatNumeral) : Option Nat :=
  let sign := if x.negative then f.signBit else 0
  if x.digits = 0 then some sign
  else
    let e : Int := if x.hex then x.exponent - 4 * x.fraction else x.exponent - x.fraction
    let radix := if x.hex then 2 else 10
    -- decimal or binary order of magnitude, to keep hopeless powers from being computed
    let size : Int := if x.hex then Nat.log2 x.digits + 1 + e else (Nat.log2 x.digits) * 3 / 10 + e
    if size > 1100 then none
    else if size < -1200 then some sign
    else (f.nearestBits? (x.digits * Nat.pow radix e.toNat) (Nat.pow radix (-e).toNat)).map (sign + ·)

def specialBits? (f : Format) (cs : List Char) : Option Nat :=
  let infinite := f.topField * f.hiddenBit
  let (negative, body) := splitSign cs
  let word := String.ofList (body.map Char.toLower)
  if word = "inf" ∨ word = "infinity" then
    some (infinite + if negative then f.signBit else 0)
  else if String.ofList (cs.map Char.toLower) = "nan" then some (infinite + f.hiddenBit / 2 + 1)
  else none

def readBits? (f : Format) (s : String) : Option Nat :=
  match specialBits? f s.toList with
  | some bits => some bits
  | none => (FloatNumeral.read? s.toList).bind (·.bits? f)

def readDouble? (s : String) : Option Float :=
  (readBits? .double s).map fun bits => Float.ofBits bits.toUInt64

def readSingle? (s : String) : Option Float32 :=
  (readBits? .single s).map fun bits => Float32.ofBits bits.toUInt32

/-- The least value of a 64-bit word, which stands for everything out of range. -/
def leastInt64 : Int := -9223372036854775808

def greatestInt64 : Int := 9223372036854775807

/-- The integer next to `± m * 2 ^ e`, down from it or toward zero. -/
def whole (down negative : Bool) (m : Nat) (e : Int) : Int :=
  let num := m * Nat.pow 2 e.toNat
  let den := Nat.pow 2 (-e).toNat
  if negative then -((if down then (num + den - 1) / den else num / den : Nat) : Int)
  else (num / den : Nat)

/-- The integer part. What has none, and what does not fit in 64 bits, becomes the least value, as on amd64. -/
def truncToInt64 (x : Float) : Int :=
  match Class.ofBits .double x.toBits.toNat with
  | .finite negative m e =>
    let n := whole false negative m e
    if leastInt64 ≤ n ∧ n ≤ greatestInt64 then n else leastInt64
  | _ => leastInt64

end CommandPack.Decimal
