import ViewHolder.Text.Basic
import ViewHolder.Text.Digits

/-!
# Quoted TOML strings

A string stands between two quotes on one line or between triple quotes on several lines.  Between
double quotes a backslash writes a character that cannot stand for itself, or joins lines; between
single quotes every character stands for itself.

## Main definitions

* `Toml.unescape` : the text that a text with backslashes writes.
* `Toml.readQuoted` : a string on one line.
* `Toml.readString` : a string on one or on several lines.
-/

namespace ViewHolder.Toml

/-! ### Characters -/

/-- Whether a character is a space or a tab. -/
def isBlank (c : Char) : Bool := c == ' ' || c == '\t'

/-- Whether a character may stand for itself on a line: it is a tab or no control character. -/
def isPlain (c : Char) : Bool := c == '\t' || (32 ≤ c.toNat && c.toNat != 127)

/-- Some lines with plain line ends, if all their characters may stand for themselves. -/
def plainLines : List Char → Option (List Char)
  | [] => some []
  | '\r' :: '\n' :: cs => (plainLines cs).map ('\n' :: ·)
  | c :: cs => if c == '\n' || isPlain c then (plainLines cs).map (c :: ·) else none

/-! ### Backslashes -/

/-- The character that a letter after a backslash writes. -/
def escaped? : Char → Option Char
  | 'b' => some '\x08'
  | 't' => some '\t'
  | 'n' => some '\n'
  | 'f' => some '\x0c'
  | 'r' => some '\r'
  | '"' => some '"'
  | '\\' => some '\\'
  | _ => none

/-- The character that a hexadecimal number writes. -/
def numbered? (digits : List Char) : Option Char :=
  match Text.ofDigits? 16 digits with
  | some n => if n.isValidChar then some (Char.ofNat n) else none
  | none => none

/-- Whether nothing but blanks stands before the end of the line. -/
def endsLine (cs : List Char) : Bool := (cs.dropWhile isBlank).head? == some '\n'

/-- The text that a text with backslashes writes.  A backslash at the end of a line drops the line
end and the blanks and line ends after it; `joining` tells that such a backslash came before. -/
def unescape (joining : Bool) : List Char → Option (List Char)
  | [] => some []
  | '\\' :: 'u' :: a :: b :: c :: d :: cs =>
    match numbered? [a, b, c, d] with
    | some x => (unescape false cs).map (x :: ·)
    | none => none
  | '\\' :: 'U' :: a :: b :: c :: d :: e :: f :: g :: h :: cs =>
    match numbered? [a, b, c, d, e, f, g, h] with
    | some x => (unescape false cs).map (x :: ·)
    | none => none
  | '\\' :: c :: cs =>
    match escaped? c with
    | some x => (unescape false cs).map (x :: ·)
    | none => if endsLine (c :: cs) then unescape true cs else none
  | ['\\'] => none
  | c :: cs =>
    if joining && (isBlank c || c == '\n') then unescape true cs
    else (unescape false cs).map (c :: ·)

/-! ### Where strings end -/

/-- The characters before the closing quote and those after it.  If `escapes` is set, a quote
after a backslash does not close. -/
def cutQuoted (quote : Char) (escapes : Bool) : List Char → Option (List Char × List Char)
  | [] => none
  | c :: cs =>
    if c = quote then some ([], cs)
    else
      match escapes && c == '\\', cs with
      | true, e :: rest =>
        (cutQuoted quote escapes rest).map fun cut => (c :: e :: cut.1, cut.2)
      | _, cs => (cutQuoted quote escapes cs).map fun cut => (c :: cut.1, cut.2)

/-- The characters before the three closing quotes and those after them.  Up to two more quotes
in front of the closing ones belong to the string. -/
def cutTriple (quote : Char) (escapes : Bool) : List Char → Option (List Char × List Char)
  | [] => none
  | c :: cs =>
    if [quote, quote, quote].isPrefixOf (c :: cs) then
      let more := ((cs.drop 2).takeWhile (· == quote)).take 2
      some (more, cs.drop (2 + more.length))
    else
      match escapes && c == '\\', cs with
      | true, e :: rest =>
        (cutTriple quote escapes rest).map fun cut => (c :: e :: cut.1, cut.2)
      | _, cs => (cutTriple quote escapes cs).map fun cut => (c :: cut.1, cut.2)

/-! ### Strings -/

/-- Whether backslashes have a meaning between quotes. -/
def hasEscapes (quote : Char) : Bool := quote == '"'

/-- The text that the characters between quotes write. -/
def textBetween (quote : Char) (body : List Char) : Option String :=
  if hasEscapes quote then (unescape false body).map String.ofList
  else some (String.ofList body)

/-- A string on one line after its opening quote, and the rest. -/
def readQuoted (quote : Char) (cs : List Char) : Option (String × List Char) :=
  match cutQuoted quote (hasEscapes quote) cs with
  | some (body, rest) =>
    if body.all isPlain then (textBetween quote body).map (·, rest) else none
  | none => none

/-- A string on several lines after its opening quotes, and the rest.  A line end right after the
opening quotes does not belong to the string. -/
def readTriple (quote : Char) (cs : List Char) : Option (String × List Char) :=
  match cutTriple quote (hasEscapes quote) cs with
  | some (body, rest) =>
    match plainLines body with
    | some ('\n' :: lines) => (textBetween quote lines).map (·, rest)
    | some lines => (textBetween quote lines).map (·, rest)
    | none => none
  | none => none

/-- A string after its first quote, and the rest. -/
def readString (quote : Char) (cs : List Char) : Option (String × List Char) :=
  match cs with
  | a :: b :: rest =>
    if a = quote ∧ b = quote then readTriple quote rest else readQuoted quote cs
  | _ => readQuoted quote cs

end ViewHolder.Toml
