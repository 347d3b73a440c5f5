/-!
# Digits

Numbers written in a base up to sixteen, with letters of either case for the digits from ten on.

## Main definitions

* `Text.digitValue?` : the value of a digit.
* `Text.ofDigits?` : the number that some digits write.
* `Text.hexDigit` : a hexadecimal digit.
-/

namespace ViewHolder.Text

/-- The value of a digit in a base up to sixteen. -/
def digitValue? (base : Nat) (c : Char) : Option Nat :=
  let n := c.toNat
  let value :=
    if 48 ≤ n && n ≤ 57 then n - 48
    else if 97 ≤ n && n ≤ 102 then n - 87
    else if 65 ≤ n && n ≤ 70 then n - 55
    else base
  if value < base then some value else none

/-- Whether a character is a digit in a base up to sixteen. -/
def isDigitOf (base : Nat) (c : Char) : Bool := (digitValue? base c).isSome

/-- Read some digits after others that write `value`. -/
def appendDigits? (base : Nat) (value : Nat) : List Char → Option Nat
  | [] => some value
  | c :: cs =>
    match digitValue? base c with
    | some d => appendDigits? base (value * base + d) cs
    | none => none

/-- The number that some digits write; there is at least one digit. -/
def ofDigits? (base : Nat) (cs : List Char) : Option Nat :=
  if cs.isEmpty then none else appendDigits? base 0 cs

/-- A hexadecimal digit in lower case. -/
def hexDigit (n : Nat) : Char := if n < 10 then Char.ofNat (48 + n) else Char.ofNat (87 + n)

end ViewHolder.Text
