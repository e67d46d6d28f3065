import CommandPack.Decimal.Binary

/-!
Shortest decimals: the fewest digits that read back as the same binary value, and of those the
nearest to it, a tie going to the even last digit.
-/

namespace CommandPack.Decimal

/-- `digits * 10 ^ exponent`. -/
structure Digits where
  digits : Nat
  exponent : Int

/-- The reals that round to a finite positive value, in units of `2 ^ (exponent - 2)`. -/
structure Interval where
  lo : Nat
  value : Nat
  hi : Nat
  closed : Bool

/-- Below a power of two the gap to the lower neighbour is half as wide. -/
def Interval.around (f : Format) (mantissa : Nat) (exponent : Int) : Interval where
  lo := if mantissa = f.hiddenBit ∧ exponent > f.leastExponent then 4 * mantissa - 1
    else 4 * mantissa - 2
  value := 4 * mantissa
  hi := 4 * mantissa + 2
  closed := mantissa % 2 == 0

def Interval.contains (i : Interval) (num den : Nat) : Bool :=
  if i.closed then i.lo * den ≤ num && num ≤ i.hi * den else i.lo * den < num && num < i.hi * den

/-- The multiple of `10 ^ k` nearest to the value among its two neighbours that lie in the
interval, divided by `10 ^ k`. -/
def Interval.gridPoint? (i : Interval) (exponent k : Int) : Option Nat :=
  -- a point `d` of the grid is `d * up / down` in the interval's units
  let up := Nat.pow 10 k.toNat * Nat.pow 2 (2 - exponent).toNat
  let down := Nat.pow 10 (-k).toNat * Nat.pow 2 (exponent - 2).toNat
  let d := i.value * down / up
  let below := i.contains (d * up) down
  let above := i.contains ((d + 1) * up) down
  -- twice the distance of the value from `d`, against a whole step
  let twice := 2 * (i.value * down - d * up)
  match below, above with
  | false, false => none
  | true, false => some d
  | false, true => some (d + 1)
  | true, true => some (if twice < up ∨ (twice = up ∧ d % 2 = 0) then d else d + 1)

/-- Tries ever finer grids, starting with steps of `10 ^ k`. -/
def Interval.search (i : Interval) (exponent : Int) : (tries : Nat) → (k : Int) → Digits
  | 0, k => ⟨0, k⟩
  | tries + 1, k =>
    match i.gridPoint? exponent k with
    | some d => ⟨d, k⟩
    | none => i.search exponent tries (k - 1)

/-- The shortest decimal of a positive value `mantissa * 2 ^ exponent`. -/
def shortest (f : Format) (mantissa : Nat) (exponent : Int) : Digits :=
  let bits : Int := Nat.log2 mantissa + 1 + exponent
  let top := Int.fdiv (bits * 30103) 100000 + 2
  (Interval.around f mantissa exponent).search exponent 24 top

end CommandPack.Decimal
