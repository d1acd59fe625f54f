/-!
# Fractions

Quotients of natural numbers, rounded and compared with powers of a base without any loss.

## Main definitions

* `roundDiv`: a quotient rounded to the nearest whole number
* `Fraction`, `Fraction.timesPower`, `Fraction.floor`, `Fraction.round`
* `Fraction.magnitude`: how many places of a base lie before the point
-/

namespace RootedFS

/-- The quotient rounded to the nearest integer, a half to the even neighbour. -/
def roundDiv (n d : Nat) : Nat :=
  let q := n / d
  let r := n % d
  if 2 * r < d then q
  else if d < 2 * r then q + 1
  else if q % 2 = 0 then q else q + 1

/-- A rounded quotient is off by half a unit at most. -/
theorem two_mul_roundDiv (n d : Nat) (hd : 0 < d) :
    2 * n ≤ 2 * (roundDiv n d * d) + d ∧ 2 * (roundDiv n d * d) ≤ 2 * n + d := by
  have hn : d * (n / d) + n % d = n := Nat.div_add_mod n d
  have hr : n % d < d := Nat.mod_lt n hd
  rw [roundDiv]
  generalize n / d = q at *
  generalize n % d = r at *
  have hq : (q + 1) * d = q * d + d := Nat.succ_mul q d
  rw [Nat.mul_comm d q] at hn
  split
  · omega
  · split
    · omega
    · split <;> omega

/-- A quotient of natural numbers. -/
structure Fraction where
  up : Nat
  down : Nat := 1
deriving DecidableEq, Repr

namespace Fraction

/-- A fraction times a power of a base. -/
def timesPower (f : Fraction) (base : Nat) : (exponent : Int) → Fraction
  | .ofNat n => ⟨f.up * Nat.pow base n, f.down⟩
  | .negSucc n => ⟨f.up, f.down * Nat.pow base (n + 1)⟩

/-- The whole part. -/
def floor (f : Fraction) : Nat :=
  f.up / f.down

/-- The nearest whole number, a half to the even neighbour. -/
def round (f : Fraction) : Nat :=
  roundDiv f.up f.down

/-- The least exponent whose power of the base is greater than the fraction, which is not zero: the
number of places before the point in that base. -/
def magnitude (f : Fraction) (base : Nat) : Int :=
  let places (n : Nat) : Int := (Nat.toDigits base n).length
  let guess := places f.up - places f.down
  if (f.timesPower base (-guess)).floor = 0 then guess else guess + 1

end Fraction

end RootedFS
