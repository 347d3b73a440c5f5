import ViewHolder.Decimal.Binary64
import ViewHolder.Text.Basic
import ViewHolder.Text.Digits

/-!
# TOML numbers

A whole number has 64 bits and may be written in base two, eight or sixteen; a floating point
number has a fraction, an exponent, or both.  An underscore may stand between two digits.

## Main definitions

* `Toml.integer?` : the whole number that some characters write.
* `Toml.float?` : the floating point number that some characters write.
-/

namespace ViewHolder.Toml

/-! ### Signs and digits -/

/-- Whether some characters start with a minus sign, and the characters after their sign. -/
def splitSign : List Char → Bool × List Char
  | '-' :: cs => (true, cs)
  | '+' :: cs => (false, cs)
  | cs => (false, cs)

/-- Some digits without the underscores between them. -/
def digits? (base : Nat) (cs : List Char) : Option (List Char) :=
  let groups := Text.pieces (· == '_') cs
  if groups.all fun g => !g.isEmpty && g.all (Text.isDigitOf base) then some groups.flatten
  else none

/-- The digits of a decimal number; a zero starts no other number. -/
def wholeDigits? (cs : List Char) : Option (List Char) :=
  match digits? 10 cs with
  | some ('0' :: _ :: _) => none
  | ds => ds

/-! ### Whole numbers -/

/-- A number, if it has 64 bits. -/
def inRange? (n : Int) : Option Int :=
  if -(Int.pow 2 63) ≤ n && n < Int.pow 2 63 then some n else none

/-- The whole number that some digits write. -/
def magnitude? (base : Nat) (ds : Option (List Char)) : Option Int :=
  match ds with
  | some ds => (Text.ofDigits? base ds).map Int.ofNat
  | none => none

/-- The whole number that some characters write. -/
def integer? (cs : List Char) : Option Int :=
  match cs with
  | '0' :: 'x' :: ds => (magnitude? 16 (digits? 16 ds)).bind inRange?
  | '0' :: 'o' :: ds => (magnitude? 8 (digits? 8 ds)).bind inRange?
  | '0' :: 'b' :: ds => (magnitude? 2 (digits? 2 ds)).bind inRange?
  | cs =>
    let (negative, ds) := splitSign cs
    (magnitude? 10 (wholeDigits? ds)).bind fun n => inRange? (if negative then -n else n)

/-! ### Floating point numbers -/

/-- Cut some characters at the first one that satisfies `p`, which is dropped. -/
def cutAt (p : Char → Bool) (cs : List Char) : List Char × Option (List Char) :=
  match cs.dropWhile fun c => !p c with
  | [] => (cs, none)
  | _ :: rest => (cs.takeWhile fun c => !p c, some rest)

/-- The exponent that some characters write. -/
def exponent? (cs : List Char) : Option Int :=
  let (negative, ds) := splitSign cs
  (magnitude? 10 (digits? 10 ds)).map fun n => if negative then -n else n

/-- The decimal number with the given digits before and after the point and a given exponent. -/
def decimalOf (whole fraction : List Char) (exponent : Int) : Option Decimal :=
  (Text.ofDigits? 10 (whole ++ fraction)).map fun n =>
    ⟨n, exponent - Int.ofNat fraction.length⟩

/-- The decimal number that some characters without a sign write; it has a fraction or an
exponent. -/
def decimal? (cs : List Char) : Option Decimal :=
  let (number, exponentPart) := cutAt (fun c => c == 'e' || c == 'E') cs
  let (wholePart, fractionPart) := cutAt (· == '.') number
  match wholeDigits? wholePart, fractionPart, exponentPart with
  | some whole, some f, none => (digits? 10 f).bind fun f => decimalOf whole f 0
  | some whole, none, some e => (exponent? e).bind (decimalOf whole [])
  | some whole, some f, some e =>
    (digits? 10 f).bind fun f => (exponent? e).bind (decimalOf whole f)
  | _, _, _ => none

/-- The floating point number that some characters write.  A number that is too large is refused,
a number that is too small in the negative is minus infinity. -/
def float? (cs : List Char) : Option Binary64 :=
  let (negative, body) := splitSign cs
  if body = ['i', 'n', 'f'] then some (.infinite negative)
  else if body = ['n', 'a', 'n'] then some .undefined
  else
    match decimal? body with
    | none => none
    | some x =>
      match Binary64.ofDecimal negative x with
      | .infinite false => none
      | y => some y

end ViewHolder.Toml
