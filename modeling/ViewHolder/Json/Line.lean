import ViewHolder.Text.Digits

/-!
# JSON lines

Events are reported as JSON objects without spaces, one object to a line.  The members of an
object are written in the order given; the writers of events give them in alphabetical order.

## Main definitions

* `Json.Value` : the values that members have.
* `Json.quote` : a text as a JSON string.
* `Json.line` : an object as one line.
-/

namespace ViewHolder.Json

/-- The values that the members of an object have. -/
inductive Value where
  /-- A text. -/
  | text (s : String)
  /-- A natural number. -/
  | number (n : Nat)
  /-- A list of texts. -/
  | texts (l : List String)
  deriving DecidableEq, Inhabited, Repr

/-- A character in a JSON string: quotes, backslashes and control characters are escaped. -/
def escapeChar (c : Char) : List Char :=
  if c = '"' then ['\\', '"']
  else if c = '\\' then ['\\', '\\']
  else if c = '\n' then ['\\', 'n']
  else if c = '\r' then ['\\', 'r']
  else if c = '\t' then ['\\', 't']
  else if c = '\x08' then ['\\', 'b']
  else if c = '\x0c' then ['\\', 'f']
  else if c.toNat < 32 then
    ['\\', 'u', '0', '0', Text.hexDigit (c.toNat / 16), Text.hexDigit (c.toNat % 16)]
  else [c]

/-- A text as a JSON string. -/
def quote (s : String) : List Char := '"' :: s.toList.flatMap escapeChar ++ ['"']

/-- Some pieces with commas between them. -/
def separated (pieces : List (List Char)) : List Char := [','].intercalate pieces

/-- A value as JSON. -/
def Value.render : Value → List Char
  | text s => quote s
  | number n => (toString n).toList
  | texts l => '[' :: separated (l.map quote) ++ [']']

/-- A member of an object. -/
abbrev Member := String × Value

/-- A member as JSON. -/
def renderMember (m : Member) : List Char := quote m.1 ++ ':' :: m.2.render

/-- An object as one line. -/
def line (members : List Member) : String :=
  String.ofList ('{' :: separated (members.map renderMember) ++ ['}'])

end ViewHolder.Json
