/-!
Binary floating-point formats: a finite value is `mantissa * 2 ^ exponent`. Decoding of bits, and
rounding of an exact quotient to the nearest value, a tie going to the even mantissa.
-/

namespace CommandPack.Decimal

structure Format where
  /-- Bits of a full mantissa, the leading one included. -/
  precision : Nat
  exponentBits : Nat

def Format.double : Format := ⟨53, 11⟩
def Format.single : Format := ⟨24, 8⟩

namespace Format

variable (f : Format)

def bias : Nat := Nat.pow 2 (f.exponentBits - 1) - 1

def leastExponent : Int := 2 - (f.bias : Int) - f.precision

def hiddenBit : Nat := Nat.pow 2 (f.precision - 1)

def topField : Nat := Nat.pow 2 f.exponentBits - 1

end Format

inductive Class where
  | nan
  | infinite (negative : Bool)
  | finite (negative : Bool) (mantissa : Nat) (exponent : Int)

def Class.ofBits (f : Format) (bits : Nat) : Class :=
  let fraction := bits % f.hiddenBit
  let field := bits / f.hiddenBit % Nat.pow 2 f.exponentBits
  let negative := bits / (f.hiddenBit * Nat.pow 2 f.exponentBits) % 2 == 1
  if field = f.topField then
    if fraction = 0 then .infinite negative else .nan
  else if field = 0 then .finite negative fraction f.leastExponent
  else .finite negative (f.hiddenBit + fraction) (f.leastExponent + field - 1)

def roundDiv (num den : Nat) : Nat :=
  let q := num / den
  let r := num % den
  if 2 * r > den ∨ (2 * r = den ∧ q % 2 = 1) then q + 1 else q

def scaled (num den : Nat) (e : Int) : Nat × Nat :=
  (num * Nat.pow 2 (-e).toNat, den * Nat.pow 2 e.toNat)

/-- The exponent of the last mantissa bit of the value closest to `num / den`. -/
def Format.unitExponent (f : Format) (num den : Nat) : Int :=
  let guess := (Nat.log2 num : Int) - Nat.log2 den - f.precision
  let (n, d) := scaled num den guess
  let e := if n / d < f.hiddenBit * 2 then guess else guess + 1
  max e f.leastExponent

/-- The bits of the value of the format closest to the positive quotient `num / den`, without the
sign; none if it is beyond the largest finite value. -/
def Format.nearestBits? (f : Format) (num den : Nat) : Option Nat :=
  let e := f.unitExponent num den
  let (n, d) := scaled num den e
  let m := roundDiv n d
  let (m, e) := if m = 2 * f.hiddenBit then (f.hiddenBit, e + 1) else (m, e)
  if m < f.hiddenBit then some m
  else
    let field := (e - f.leastExponent + 1).toNat
    if field ≥ f.topField then none else some (field * f.hiddenBit + (m - f.hiddenBit))

def Format.signBit (f : Format) : Nat := f.hiddenBit * Nat.pow 2 f.exponentBits

end CommandPack.Decimal
