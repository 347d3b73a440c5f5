/-!
# Binary floating point numbers

A decimal number is read as the nearest floating point number of 64 bits; of two that are equally
near, the one with the even mantissa is taken.  The arithmetic is exact.

## Main definitions

* `Binary64` : a number `mantissa * 2 ^ exponent` with a sign, an infinity, or no number.
* `Decimal` : a number `digits * 10 ^ exponent`.
* `Binary64.ofDecimal` : the nearest number of 64 bits.
-/

namespace ViewHolder

/-- A floating point number of 64 bits. -/
inductive Binary64 where
  /-- The number `mantissa * 2 ^ exponent`, or its negative. -/
  | finite (negative : Bool) (mantissa : Nat) (exponent : Int)
  /-- An infinity. -/
  | infinite (negative : Bool)
  /-- No number. -/
  | undefined
  deriving DecidableEq, Inhabited, Repr

/-- The number `digits * 10 ^ exponent`. -/
structure Decimal where
  /-- The digits. -/
  digits : Nat
  /-- The power of ten that the digits are multiplied with. -/
  exponent : Int
  deriving DecidableEq, Inhabited, Repr

/-! ### Fractions -/

/-- The fraction `n * base ^ exponent`, as numerator and denominator. -/
def scaled (base n : Nat) (exponent : Int) : Nat × Nat :=
  (n * base.pow exponent.toNat, base.pow (-exponent).toNat)

/-- The quotient rounded to the nearest whole number, halves to the even one. -/
def roundedQuotient (num den : Nat) : Nat :=
  let q := num / den
  let twice := 2 * (num % den)
  if twice < den then q
  else if den < twice then q + 1
  else q + q % 2

namespace Binary64

/-- The least exponent. -/
def leastExponent : Int := -1074

/-- The greatest exponent. -/
def greatestExponent : Int := 971

/-- The number of binary places of a fraction before its point, up to one too many. -/
def places (num den : Nat) : Int := Int.ofNat num.log2 - Int.ofNat den.log2

/-- The exponent of the number of 64 bits that is nearest to a fraction, before rounding: with it
the mantissa has 53 binary places, or fewer at the least exponent. -/
def exponentFor (num den : Nat) : Int :=
  let p := places num den
  let (n, d) := scaled 2 den p
  let whole := if num * d < n then p - 1 else p
  max (whole - 52) leastExponent

/-- A number whose mantissa has been rounded up to 54 places gets the next exponent. -/
def carry (mantissa : Nat) (exponent : Int) : Nat × Int :=
  if mantissa = Nat.pow 2 53 then (Nat.pow 2 52, exponent + 1) else (mantissa, exponent)

/-- The number of 64 bits that is nearest to a fraction. -/
def ofFraction (negative : Bool) (num den : Nat) : Binary64 :=
  if num = 0 then finite negative 0 leastExponent
  else
    let e := exponentFor num den
    let (n, d) := scaled 2 den e
    let (m, e) := carry (roundedQuotient (num * d) n) e
    if greatestExponent < e then infinite negative else finite negative m e

/-- The number of 64 bits that is nearest to a decimal number.  Powers of ten far out of range are
not computed. -/
def ofDecimal (negative : Bool) (x : Decimal) : Binary64 :=
  let size := Int.ofNat (toString x.digits).length + x.exponent
  if x.digits = 0 || size < -330 then finite negative 0 leastExponent
  else if 310 < size then infinite negative
  else
    let (num, den) := scaled 10 x.digits x.exponent
    ofFraction negative num den

end Binary64

end ViewHolder
