import CommandPack.Decimal.Shortest

/-!
Decimal notation of binary values. A layout says which decimal exponents are written with an
exponent part and how that part looks; the digits are the shortest ones.
-/

namespace CommandPack.Decimal

/-- How a value is laid out. The decimal exponent of a value is that of its first digit. -/
structure Layout where
  /-- Decimal exponents below this one get an exponent part. -/
  leastPlain : Option Int
  /-- Decimal exponents from this one on get an exponent part. -/
  firstScientific : Option Int
  /-- Are negative exponents padded to two digits? Others always are. -/
  padNegative : Bool

/-- Never an exponent part. -/
def Layout.plain : Layout := ⟨none, none, true⟩

/-- An exponent part below a ten-thousandth and from a million on. -/
def Layout.general : Layout := ⟨some (-4), some 6, true⟩

/-- An exponent part below a millionth and from `10 ^ 21` on. -/
def Layout.json : Layout := ⟨some (-6), some 21, false⟩

def zeros (n : Nat) : String :=
  String.ofList (List.replicate n '0')

/-- Digits with the decimal point after the first `point` of them. -/
def positional (digits : String) (point : Int) : String :=
  if point ≤ 0 then "0." ++ zeros (-point).toNat ++ digits
  else if digits.length ≤ point then digits ++ zeros (point.toNat - digits.length)
  else String.ofList (digits.toList.take point.toNat) ++ "." ++
    String.ofList (digits.toList.drop point.toNat)

def scientific (style : Layout) (digits : String) (exponent : Int) : String :=
  let mantissa := match digits.toList with
    | [] => ""
    | [d] => String.ofList [d]
    | d :: rest => String.ofList (d :: '.' :: rest)
  let n := exponent.natAbs
  let pad := if n < 10 ∧ (exponent ≥ 0 ∨ style.padNegative) then "0" else ""
  mantissa ++ (if exponent < 0 then "e-" else "e+") ++ pad ++ toString n

def Digits.render (style : Layout) (d : Digits) : String :=
  let digits := toString d.digits
  let point : Int := digits.length + d.exponent
  let exponent := point - 1
  if style.leastPlain.any (exponent < ·) ∨ style.firstScientific.any (· ≤ exponent) then
    scientific style digits exponent
  else positional digits point

def Class.render (style : Layout) (f : Format) : Class → String
  | .nan => "NaN"
  | .infinite negative => if negative then "-Inf" else "+Inf"
  | .finite negative m e =>
    (if negative then "-" else "") ++
      (if m = 0 then "0" else (shortest f m e).render style)

def renderDouble (style : Layout) (x : Float) : String :=
  (Class.ofBits .double x.toBits.toNat).render style .double

def renderSingle (style : Layout) (x : Float32) : String :=
  (Class.ofBits .single x.toBits.toNat).render style .single

end CommandPack.Decimal
