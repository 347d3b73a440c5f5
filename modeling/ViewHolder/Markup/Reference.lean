import ViewHolder.Markup.Fault
import ViewHolder.Text.Digits

/-!
# References in attribute values

An attribute value writes the five characters with a meaning of their own as named references and
may write any character by its number.

## Main definitions

* `Markup.characterOfNumber` : the character that a number stands for.
* `Markup.expand` : a value with its references replaced.
-/

namespace ViewHolder.Markup

/-- The 32-bit number that some digits write; the first fault from the left counts. -/
def readDigits (base : Nat) (value : Nat) : List Char → Except NumberFault Nat
  | [] => .ok value
  | c :: cs =>
    match Text.digitValue? base c with
    | none => .error .notADigit
    | some d =>
      if value * base + d < 2 ^ 32 then readDigits base (value * base + d) cs
      else .error .tooLarge

/-- The number that some digits without a sign write. -/
def readNumber (base : Nat) (cs : List Char) : Except NumberFault Nat :=
  match cs with
  | [] => .error .empty
  | c :: _ => if c = '+' ∨ c = '-' then .error .signed else readDigits base 0 cs

/-- The character of a code point other than zero. -/
def characterOfCode (n : Nat) : Except NumberFault Char :=
  if n = 0 then .error .zero
  else if n.isValidChar then .ok (Char.ofNat n)
  else .error (.noCodePoint n)

/-- The character that the number of a character reference stands for. -/
def characterOfNumber (cs : List Char) : Except NumberFault Char := do
  let n ← match cs with
    | 'x' :: digits => readNumber 16 digits
    | digits => readNumber 10 digits
  characterOfCode n

/-- The named references. -/
def entities : List (String × Char) :=
  [("lt", '<'), ("gt", '>'), ("amp", '&'), ("apos", '\''), ("quot", '"')]

/-- The character that a reference stands for, given its text and offset. -/
def characterOfReference (offset : Nat) (name : List Char) : Except ReferenceFault Char :=
  match name with
  | '#' :: number =>
    match characterOfNumber number with
    | .ok c => .ok c
    | .error f => .error (.badNumber f)
  | _ =>
    match entities.lookup (String.ofList name) with
    | some c => .ok c
    | none => .error (.unknownEntity offset (offset + Text.byteSize name) (String.ofList name))

/-- Whether a character neither starts nor ends a reference. -/
def isReferenceBody (c : Char) : Bool := c != '&' && c != ';'

/-- Replace the references of a value of `size` bytes from the offset `pos` on. -/
def expandFrom (size pos : Nat) (cs : List Char) : Except ReferenceFault (List Char) :=
  match cs with
  | [] => .ok []
  | '&' :: after =>
    match h : after.dropWhile isReferenceBody with
    | ';' :: rest => do
      let name := after.takeWhile isReferenceBody
      let c ← characterOfReference (pos + 1) name
      let tail ← expandFrom size (pos + 1 + Text.byteSize name + 1) rest
      return c :: tail
    | _ => .error (.unterminated pos size)
  | c :: after => do
    let tail ← expandFrom size (pos + c.utf8Size) after
    return c :: tail
termination_by cs.length
decreasing_by
  · have := (List.dropWhile_suffix isReferenceBody (l := after)).length_le
    rw [h] at this
    simp at this ⊢
    omega
  · simp

/-- A value with its references replaced. -/
def expand (value : List Char) : Except ReferenceFault (List Char) :=
  expandFrom (Text.byteSize value) 0 value

end ViewHolder.Markup
