/-!
# Bytes of texts

Reading bytes as a text.  Strictly, bytes that are no text have no reading; leniently, every
maximal piece that starts a character but does not complete it reads as the replacement
character.

## Main definitions

* `Text.decode?` : the strict reading.
* `Text.decodeLossy` : the lenient reading.
-/

namespace ViewHolder.Text

/-- The text that some bytes encode. -/
def decode? (bytes : ByteArray) : Option String := String.fromUTF8? bytes

/-- Whether a byte lies between two bounds. -/
def byteIn (lo hi : Nat) (b : UInt8) : Bool := lo ≤ b.toNat && b.toNat ≤ hi

/-- The bounds of the bytes that may follow the first byte of a character, and the bits that the
first byte contributes; nothing if no character starts with it. -/
def continuations? (b : UInt8) : Option (Nat × List (Nat × Nat)) :=
  let n := b.toNat
  let any := (0x80, 0xBF)
  if n < 0x80 then some (n, [])
  else if byteIn 0xC2 0xDF b then some (n - 0xC0, [any])
  else if n = 0xE0 then some (0, [(0xA0, 0xBF), any])
  else if n = 0xED then some (0xD, [(0x80, 0x9F), any])
  else if byteIn 0xE1 0xEF b then some (n - 0xE0, [any, any])
  else if n = 0xF0 then some (0, [(0x90, 0xBF), any, any])
  else if byteIn 0xF1 0xF3 b then some (n - 0xF0, [any, any, any])
  else if n = 0xF4 then some (4, [(0x80, 0x8F), any, any])
  else none

/-- Complete a character whose first bytes contributed `bits`: the character, or the replacement
character as soon as a byte is out of its bounds, and the bytes that are left. -/
def complete (bits : Nat) : List (Nat × Nat) → List UInt8 → Char × List UInt8
  | [], bytes => (Char.ofNat bits, bytes)
  | _ :: _, [] => ('\uFFFD', [])
  | (lo, hi) :: bounds, b :: bytes =>
    if byteIn lo hi b then complete (bits * 64 + (b.toNat - 0x80)) bounds bytes
    else ('\uFFFD', b :: bytes)

theorem complete_length_le (bits : Nat) (bounds : List (Nat × Nat)) (bytes : List UInt8) :
    (complete bits bounds bytes).2.length ≤ bytes.length := by
  induction bounds generalizing bits bytes with
  | nil => simp [complete]
  | cons r bounds ih =>
    cases bytes with
    | nil => simp [complete]
    | cons b bytes =>
      rw [complete]
      split
      · exact Nat.le_succ_of_le (ih _ _)
      · simp

/-- The characters that some bytes read as, leniently. -/
def decodeLossyChars : List UInt8 → List Char
  | [] => []
  | b :: bytes =>
    match continuations? b with
    | none => '\uFFFD' :: decodeLossyChars bytes
    | some (bits, bounds) =>
      have := complete_length_le bits bounds bytes
      let r := complete bits bounds bytes
      r.1 :: decodeLossyChars r.2
termination_by bytes => bytes.length

/-- The text that some bytes read as, leniently. -/
def decodeLossy (bytes : ByteArray) : String := String.ofList (decodeLossyChars bytes.toList)

end ViewHolder.Text
