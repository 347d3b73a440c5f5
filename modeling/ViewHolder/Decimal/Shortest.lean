import ViewHolder.Decimal.Binary64

/-!
# Shortest decimal texts

A floating point number is written with the fewest digits that read back as the same number; of
two such decimal numbers the nearer one is written, and the greater one if they are equally near.
The point is always written, an exponent never.

## Main definitions

* `Decimal.shortest` : the decimal number with the fewest digits that reads back.
* `Binary64.text` : the text of a floating point number.
-/

namespace ViewHolder

/-! ### Digits -/

namespace Decimal

/-- The exponent of the first digit of the fraction `num / den`, up to one. -/
def leadingExponent (num den : Nat) : Int :=
  Int.ofNat (toString num).length - Int.ofNat (toString den).length

/-- The two decimal numbers with a given exponent between which the fraction `num / den` lies, and
whether the lower one is nearer. -/
def neighbours (num den : Nat) (exponent : Int) : Decimal × Decimal × Bool :=
  let (n, d) := scaled 10 den exponent
  let q := num * d / n
  (⟨q, exponent⟩, ⟨q + 1, exponent⟩, 2 * (num * d % n) < n)

/-- The decimal number with a given exponent that reads back, if there is one. -/
def candidate? (num den : Nat) (readsBack : Decimal → Bool) (exponent : Int) : Option Decimal :=
  let (lower, upper, lowerNearer) := neighbours num den exponent
  match readsBack lower, readsBack upper with
  | true, true => some (if lowerNearer then lower else upper)
  | true, false => some lower
  | false, true => some upper
  | false, false => none

/-- The exponents of decimal numbers from one digit up to eighteen. -/
def exponents (num den : Nat) : List Int :=
  (List.range 19).map fun n => leadingExponent num den - Int.ofNat n

/-- The decimal number with the fewest digits that reads back as `mantissa * 2 ^ exponent`. -/
def shortest (mantissa : Nat) (exponent : Int) : Decimal :=
  let (num, den) := scaled 2 mantissa exponent
  let readsBack x := Binary64.ofDecimal false x == .finite false mantissa exponent
  ((exponents num den).findSome? (candidate? num den readsBack)).getD ⟨0, 0⟩

/-! ### Texts -/

/-- Some digits with zeros in front, `n` of them at least. -/
def padded (n : Nat) (cs : List Char) : List Char := List.replicate (n - cs.length) '0' ++ cs

/-- Drop the zeros at the end of some digits, except for the first digit. -/
def dropZeros (cs : List Char) : List Char :=
  match (cs.reverse.dropWhile (· == '0')).reverse with
  | [] => ['0']
  | digits => digits

/-- A decimal number with a point and without an exponent. -/
def text (x : Decimal) : String :=
  let (num, den) := scaled 10 x.digits x.exponent
  let fraction := padded (-x.exponent).toNat (toString (num % den)).toList
  toString (num / den) ++ "." ++ String.ofList (dropZeros fraction)

end Decimal

/-- The sign of a negative number. -/
def signText (negative : Bool) : String := if negative then "-" else ""

/-- The text of a floating point number. -/
def Binary64.text : Binary64 → String
  | finite negative 0 _ => signText negative ++ "0.0"
  | finite negative m e => signText negative ++ (Decimal.shortest m e).text
  | infinite negative => signText negative ++ "inf"
  | undefined => "NaN"

end ViewHolder
