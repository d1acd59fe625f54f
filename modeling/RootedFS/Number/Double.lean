import RootedFS.Number.Fraction

/-!
# Numbers of double precision

A number of double precision is a whole number of at most fifty-three binary digits times a power
of two, with a sign that zero has too; besides there are two infinities and one value that is no
number. A decimal stands for the number nearest to it, and a number is written with the fewest
decimal digits that stand for it.

## Main definitions

* `Double`
* `Double.ofFraction`, `Double.ofDecimal`: the number nearest to a fraction or a decimal
* `Double.shortest`: the fewest digits that stand for a number
* `Double.describe`: a number as it is written
-/

namespace RootedFS

/-- A number of double precision. -/
inductive Double where
  /-- The number `mantissa * 2 ^ exponent`, or its negative. -/
  | finite (negative : Bool) (mantissa : Nat) (exponent : Int)
  | infinite (negative : Bool)
  | undefined
deriving DecidableEq, Repr

namespace Double

/-! ## The nearest number -/

/-- The number of binary digits that are kept. -/
def precision : Nat := 53

/-- The least exponent. -/
def minExponent : Int := -1074

/-- The greatest exponent. -/
def maxExponent : Int := 971

/-- The number nearest to a fraction, with a sign; of two that are equally near, the one with the
even mantissa. -/
def ofFraction (negative : Bool) (f : Fraction) : Double :=
  if f.up = 0 then finite negative 0 minExponent
  else
    let e := max minExponent (f.magnitude 2 - precision)
    let m := (f.timesPower 2 (-e)).round
    -- rounding up may have carried into one more binary digit
    let (m, e) := if m = Nat.pow 2 precision then (Nat.pow 2 (precision - 1), e + 1) else (m, e)
    if maxExponent < e then infinite negative else finite negative m e

/-- The number nearest to `digits * 10 ^ exponent`, with a sign. Far outside the range of the
numbers, the digits do not matter. -/
def ofDecimal (negative : Bool) (digits : Nat) (exponent : Int) : Double :=
  let places := (Nat.toDigits 10 digits).length + exponent
  if digits = 0 ∨ places < -400 then finite negative 0 minExponent
  else if 400 < places then infinite negative
  else ofFraction negative ((⟨digits, 1⟩ : Fraction).timesPower 10 exponent)

/-- The size of a finite number. -/
def magnitude (mantissa : Nat) (exponent : Int) : Fraction :=
  (⟨mantissa, 1⟩ : Fraction).timesPower 2 exponent

/-- Whether a number is zero. -/
def isZero : Double → Bool
  | finite _ m _ => m == 0
  | _ => false

/-! ## The fewest digits -/

/-- Some digits, read as one whole number, and the exponent of ten that goes with them. -/
structure Decimal where
  digits : Nat
  exponent : Int
deriving DecidableEq, Repr

/-- Whether a decimal stands for a finite number. -/
def Decimal.standsFor (d : Decimal) (mantissa : Nat) (exponent : Int) : Bool :=
  ofDecimal false d.digits d.exponent = finite false mantissa exponent

/-- The decimals next to a finite number whose last digit has the exponent `unit`, the nearest one
first. -/
def neighbours (mantissa : Nat) (exponent unit : Int) : List Decimal :=
  let f := (magnitude mantissa exponent).timesPower 10 (-unit)
  [⟨f.round, unit⟩, ⟨f.floor, unit⟩, ⟨f.floor + 1, unit⟩]

/-- The number of decimal digits that stand for any number. -/
def enoughDigits : Nat := 17

/-- The decimal with the fewest digits that stands for a finite number other than zero, and the
nearest one of those. -/
def shortest (mantissa : Nat) (exponent : Int) : Decimal :=
  let places := (magnitude mantissa exponent).magnitude 10
  let units := (List.range enoughDigits).map fun n => places - (n + 1 : Nat)
  let candidates := units.flatMap (neighbours mantissa exponent)
  (candidates.find? (·.standsFor mantissa exponent)).getD ⟨mantissa, exponent⟩

/-! ## Text -/

/-- A whole number with a sign and at least two digits. -/
def exponentText (n : Int) : List Char :=
  let digits := Nat.toDigits 10 n.natAbs
  (if n < 0 then '-' else '+') :: (List.replicate (2 - digits.length) '0' ++ digits)

/-- Digits with the point after `place` of them: written out where the point lies near the digits,
and otherwise with one digit before the point and an exponent. -/
def layOut (digits : List Char) (place : Int) : List Char :=
  if -4 < place ∧ place ≤ 16 then
    let before := digits.take place.toNat
    let after := List.replicate (-place).toNat '0' ++ digits.drop place.toNat
    (if before = [] then ['0'] else before)
      ++ List.replicate (place.toNat - digits.length) '0'
      ++ '.' :: (if after = [] then ['0'] else after)
  else
    let after := digits.drop 1
    digits.take 1 ++ (if after = [] then [] else '.' :: after) ++ 'e' :: exponentText (place - 1)

/-- The significant digits of a decimal, without zeros at the end, and the place of the point. -/
def Decimal.significant (d : Decimal) : List Char × Int :=
  let digits := Nat.toDigits 10 d.digits
  ((digits.reverse.dropWhile (· == '0')).reverse, digits.length + d.exponent)

/-- A number as it is written: with the fewest digits that stand for it, and with a point or an
exponent. -/
def describe : Double → String
  | finite negative mantissa exponent =>
    let body :=
      if mantissa = 0 then ['0', '.', '0']
      else
        let (digits, place) := (shortest mantissa exponent).significant
        layOut digits place
    String.ofList (if negative then '-' :: body else body)
  | infinite negative => if negative then "-inf" else "inf"
  | undefined => "nan"

end Double

end RootedFS
