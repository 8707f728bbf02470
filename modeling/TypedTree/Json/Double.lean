/-
Finite binary64 values in exact arithmetic.

A value is a sign, a natural mantissa and a power of two, so nothing here depends
on machine floats:

* `Double.nearest` rounds a quotient times a power of two to the closest value,
  ties to even, and refuses what lies past the largest finite value;
* `Double.scaleByTen` is the value read from a decimal significand and exponent:
  one product or quotient with the closest value of a power of ten, each rounded;
* `Double.shortest` is the decimal with the fewest digits that rounds back to the
  value, the nearest one of those, and the even one of two equally near;
* `Double.render` lays those digits out.
-/

namespace TypedTree

/-- The finite binary64 value `± mantissa * 2 ^ exponent`. A nonzero value has a
mantissa of 53 bits, or a shorter one and the least exponent `-1074`; both zeros
have that exponent too. -/
structure Double where
  negative : Bool
  mantissa : Nat
  exponent : Int
deriving DecidableEq, Repr

namespace Double

/-! ### Rounding -/

/-- The quotient `num / den` rounded to the nearest natural, ties to even. -/
def roundDiv (num den : Nat) : Nat :=
  let q := num / den
  let twice := 2 * (num % den)
  if twice < den then q else if den < twice then q + 1 else q + q % 2

/-- The fraction `num / den * 2 ^ scale`, as a numerator and a denominator. -/
def scaled (num den : Nat) (scale : Int) : Nat × Nat :=
  (num * Nat.pow 2 scale.toNat, den * Nat.pow 2 (-scale).toNat)

/-- The value nearest to `num / den * 2 ^ scale`; `none` past the largest finite
value. -/
def nearest (negative : Bool) (num den : Nat) (scale : Int) : Option Double :=
  let (num, den) := scaled num den scale
  if num = 0 then some ⟨negative, 0, -1074⟩
  else
    let guess : Int := (num.log2 : Int) - den.log2 - 52
    let (n, d) := scaled num den (-guess)
    let exponent := max (-1074) (if n / d < Nat.pow 2 52 then guess - 1 else guess)
    let (n, d) := scaled num den (-exponent)
    let mantissa := roundDiv n d
    let (mantissa, exponent) :=
      if mantissa = Nat.pow 2 53 then (Nat.pow 2 52, exponent + 1) else (mantissa, exponent)
    if 971 < exponent then none else some ⟨negative, mantissa, exponent⟩

/-- The largest finite magnitude. -/
def largest (negative : Bool) : Double := ⟨negative, Nat.pow 2 53 - 1, 971⟩

/-- The value nearest to a natural that is in range. -/
def ofNat (n : Nat) : Double := (nearest false n 1 0).getD (largest false)

/-- The value with its sign turned. -/
def neg (x : Double) : Double := { x with negative := !x.negative }

/-- The rounded product of two magnitudes; `none` past the largest. -/
def mul (x y : Double) : Option Double :=
  nearest false (x.mantissa * y.mantissa) 1 (x.exponent + y.exponent)

/-- The rounded quotient of two magnitudes, the second not zero. -/
def div (x y : Double) : Double :=
  (nearest false x.mantissa y.mantissa (x.exponent - y.exponent)).getD (largest false)

/-- The value nearest to `10 ^ k`, for `k ≤ 308`. -/
def tenPow (k : Nat) : Double := ofNat (Nat.pow 10 k)

/-- The magnitude `x` divided by `10 ^ k`, by at most `10 ^ 308` at a time. -/
def divTenPow (x : Double) (k : Nat) : Double :=
  if k ≤ 308 then x.div (tenPow k)
  else if x.mantissa = 0 then x
  else divTenPow (x.div (tenPow 308)) (k - 308)
termination_by k

/-- The value read from the decimal `significand * 10 ^ exponent`; `none` when it
is out of range. -/
def scaleByTen (significand : Nat) (exponent : Int) : Option Double :=
  let x := ofNat significand
  if exponent < 0 then some (x.divTenPow (-exponent).toNat)
  else if exponent ≤ 308 then x.mul (tenPow exponent.toNat)
  else if x.mantissa = 0 then some x
  else none

/-- Equality as numbers: the two zeros are equal. -/
def same (x y : Double) : Bool :=
  x.mantissa == y.mantissa && x.exponent == y.exponent &&
    (x.negative == y.negative || x.mantissa == 0)

/-! ### Shortest decimals -/

/-- The decimal `digits * 10 ^ exponent`. -/
structure Decimal where
  digits : Nat
  exponent : Int
deriving DecidableEq, Repr

/-- Moves trailing zeros of the digits into the exponent; `fuel` bounds their
number. -/
def Decimal.strip : Nat → Decimal → Decimal
  | 0, d => d
  | fuel + 1, d =>
    if d.digits ≠ 0 ∧ d.digits % 10 = 0 then strip fuel ⟨d.digits / 10, d.exponent + 1⟩ else d

/-- The number of decimal digits of a positive natural. -/
def digitCount (n : Nat) : Nat := (Nat.toDigits 10 n).length

/-- The exponent of the first significant digit of `num / den`. -/
def leadingExponent (num den : Nat) : Int :=
  if den ≤ num then digitCount (num / den) - 1
  else -(digitCount ((den - 1) / num))

/-- The multiple of `10 ^ place` closest to the magnitude, if one rounds to it:
the two neighbours of the value on that grid are tried, the nearer one first. The
values that round to the magnitude reach from `4 * mantissa - below` to
`4 * mantissa + 2` in units of `2 ^ (exponent - 2)`, ends included if the mantissa
is even. -/
def onGrid? (x : Double) (place : Int) : Option Nat :=
  let unit := Nat.pow 2 (x.exponent - 2).toNat * Nat.pow 10 (-place).toNat
  let step := Nat.pow 2 (2 - x.exponent).toNat * Nat.pow 10 place.toNat
  let below := if x.mantissa = Nat.pow 2 52 ∧ -1074 < x.exponent then 1 else 2
  let low := (4 * x.mantissa - below) * unit
  let high := (4 * x.mantissa + 2) * unit
  let value := 4 * x.mantissa * unit
  let inside (c : Nat) : Bool :=
    if x.mantissa % 2 = 0 then low ≤ c * step && c * step ≤ high
    else low < c * step && c * step < high
  let floor := value / step
  let nearer := roundDiv value step
  let other := if nearer = floor then floor + 1 else floor
  if inside nearer then some nearer else if inside other then some other else none

/-- The shortest decimal that rounds to a nonzero magnitude. Seventeen digits are
always enough. -/
def shortest (x : Double) : Decimal :=
  let (num, den) := scaled x.mantissa 1 x.exponent
  let leading := leadingExponent num den
  let found := (List.range 17).findSome? fun (n : Nat) =>
    let place := leading - n
    (x.onGrid? place).map fun c => Decimal.strip 20 ⟨c, place⟩
  found.getD ⟨x.mantissa, x.exponent⟩

/-! ### Layout -/

/-- Which exponents of the leading digit are written in positional notation. -/
structure Layout where
  positional : Int → Bool

/-- The digits with the decimal point moved in, and always a fraction. -/
def positionalText (digits : String) (exponent : Int) : String :=
  let count : Int := digits.length
  if 0 ≤ exponent then digits ++ String.ofList (List.replicate exponent.toNat '0') ++ ".0"
  else if 0 < count + exponent then
    let whole := (count + exponent).toNat
    String.ofList (digits.toList.take whole) ++ "." ++ String.ofList (digits.toList.drop whole)
  else "0." ++ String.ofList (List.replicate (-(count + exponent)).toNat '0') ++ digits

/-- The digits with the point after the first one, and an exponent with its
sign. -/
def scientificText (digits : String) (leading : Int) : String :=
  let rest := String.ofList (digits.toList.drop 1)
  let fraction := if rest.isEmpty then "" else "." ++ rest
  let sign := if leading < 0 then "-" else "+"
  String.ofList (digits.toList.take 1) ++ fraction ++ "e" ++ sign ++ toString leading.natAbs

/-- The value in its fewest digits. -/
def render (layout : Layout) (x : Double) : String :=
  let sign := if x.negative then "-" else ""
  if x.mantissa = 0 then sign ++ "0.0"
  else
    let d := x.shortest
    let digits := toString d.digits
    let leading := d.exponent + digits.length - 1
    sign ++ if layout.positional leading then positionalText digits d.exponent
      else scientificText digits leading

end Double

end TypedTree
