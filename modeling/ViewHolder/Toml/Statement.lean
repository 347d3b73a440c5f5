import ViewHolder.Toml.Moment
import ViewHolder.Toml.Number
import ViewHolder.Toml.Quoted
import ViewHolder.Toml.Table

/-!
# TOML statements

A TOML text is a list of statements: entries that give a key a value, and headers of tables.  Each
stands on a line of its own, except that strings and arrays may go over several lines.

## Main definitions

* `Toml.Reader` : reads something at the start of a text, and leaves the rest.
* `Toml.readKeys`, `Toml.readValue` : a dotted key, and a value.
* `Toml.Statement`, `Toml.readStatement` : one statement, or a line without one.
* `Toml.statements?` : the statements of a text.
-/

namespace ViewHolder.Toml

/-- Reads something at the start of a text, and leaves the rest. -/
abbrev Reader (α : Type) := List Char → Option (α × List Char)

/-- The part of a text between two places, each given by the rest of the text from there on. -/
def spanOf (start rest : List Char) : Span := ⟨Text.byteSize start, Text.byteSize rest⟩

/-! ### Keys -/

/-- The largest number of parts of a dotted key. -/
def keyLimit : Nat := 79

/-- Whether a character may stand in a key without quotes. -/
def isBareKeyChar (c : Char) : Bool := c.isAlphanum || c == '_' || c == '-'

/-- Whether a character opens a string. -/
def isQuote (c : Char) : Bool := c == '"' || c == '\''

/-- Read a part of a dotted key. -/
def readKey : Reader Key
  | [] => none
  | c :: cs =>
    if isQuote c then
      (readQuoted c cs).map fun (s, rest) => (⟨spanOf (c :: cs) rest, s⟩, rest)
    else if isBareKeyChar c then
      let rest := cs.dropWhile isBareKeyChar
      some (⟨spanOf (c :: cs) rest, String.ofList (c :: cs.takeWhile isBareKeyChar)⟩, rest)
    else none

/-- Read a dotted key of at most the given number of parts, with the blanks around it: the parts
before the last dot, and the last part. -/
def readKeys : Nat → Reader (List Key × Key)
  | 0, _ => none
  | n + 1, cs =>
    match readKey (cs.dropWhile isBlank) with
    | none => none
    | some (key, rest) =>
      match rest.dropWhile isBlank with
      | '.' :: more =>
        (readKeys n more).map fun ((path, last), rest) => ((key :: path, last), rest)
      | rest => some (([], key), rest)

/-! ### Values without items -/

/-- Whether a character ends a value without quotes. -/
def isDelimiter (c : Char) : Bool :=
  isBlank c || c == '\n' || c == '\r' || c == '#' || c == ',' || c == ']' || c == '}'

/-- The characters up to the next delimiter. -/
def wordOf (cs : List Char) : List Char := cs.takeWhile fun c => !isDelimiter c

/-- The characters from the next delimiter on. -/
def afterWord (cs : List Char) : List Char := cs.dropWhile fun c => !isDelimiter c

/-- Drop the time that a blank separates from a date. -/
def dropTime : List Char → List Char
  | ' ' :: cs => if isTimeWithOffset (wordOf cs) then afterWord cs else ' ' :: cs
  | cs => cs

/-- The value that a word writes. -/
def wordValue? (word : List Char) : Option Value :=
  if word = ['t', 'r', 'u', 'e'] then some (.boolean true)
  else if word = ['f', 'a', 'l', 's', 'e'] then some (.boolean false)
  else if isMoment word then some .moment
  else
    match float? word with
    | some x => some (.float x)
    | none => (integer? word).map .integer

/-- Read a value without quotes. -/
def readWord : Reader Value := fun cs =>
  let rest := if isDate (wordOf cs) then dropTime (afterWord cs) else afterWord cs
  (wordValue? (wordOf cs)).map (·, rest)

/-! ### Arrays and tables between braces -/

/-- Drop the blanks, line ends and comments between the items of an array. -/
def dropGaps (comment : Bool) : List Char → List Char
  | [] => []
  | '\r' :: '\n' :: cs => dropGaps false cs
  | c :: cs =>
    if c == '\n' then dropGaps false cs
    else if comment then (if isPlain c then dropGaps true cs else c :: cs)
    else if isBlank c then dropGaps false cs
    else if c == '#' then dropGaps true cs
    else c :: cs

/-- Read the items of an array and its closing bracket; there are fewer than the given number of
items. -/
def readItems (item : Reader Node) : Nat → Reader (List Node)
  | 0, _ => none
  | n + 1, cs =>
    match dropGaps false cs with
    | ']' :: rest => some ([], rest)
    | start =>
      match item start with
      | none => none
      | some (node, rest) =>
        match dropGaps false rest with
        | ']' :: rest => some ([node], rest)
        | ',' :: rest => (readItems item n rest).map fun (nodes, rest) => (node :: nodes, rest)
        | _ => none

/-- Read a dotted key and its value. -/
def readEntry (item : Reader Node) : Reader (List Key × Key × Node) := fun cs =>
  match readKeys keyLimit cs with
  | some ((path, key), '=' :: rest) =>
    (item (rest.dropWhile isBlank)).map fun (node, rest) => ((path, key, node), rest)
  | _ => none

/-- Read the entries of a table between braces and its closing brace; there is at least one entry,
and there are fewer than the given number. -/
def readEntries (item : Reader Node) : Nat → Reader (List (List Key × Key × Node))
  | 0, _ => none
  | n + 1, cs =>
    match readEntry item cs with
    | none => none
    | some (entry, rest) =>
      match rest.dropWhile isBlank with
      | '}' :: rest => some ([entry], rest)
      | ',' :: rest =>
        (readEntries item n rest).map fun (entries, rest) => (entry :: entries, rest)
      | _ => none

/-- The members that some entries give a table. -/
def membersOf (entries : List (List Key × Key × Node)) : Option Members :=
  entries.foldlM (fun members (path, key, node) => addValue path key node members) []

/-- Read an array after its opening bracket. -/
def readArray (item : Reader Node) : Reader Value := fun cs =>
  (readItems item (cs.length + 1) cs).map fun (nodes, rest) => (.array nodes, rest)

/-- Read a table after its opening brace. -/
def readBraces (item : Reader Node) : Reader Value := fun cs =>
  match cs.dropWhile isBlank with
  | '}' :: rest => some (.table .braces [], rest)
  | start =>
    match readEntries item (start.length + 1) start with
    | none => none
    | some (entries, rest) => (membersOf entries).map fun ms => (.table .braces ms, rest)

/-- How deep arrays and tables between braces may stand in one another. -/
def depthLimit : Nat := 79

/-- Read a value, given how its items are read, if it may have items. -/
def readValueWith (item : Option (Reader Node)) : Reader Value
  | '[' :: cs => item.bind fun read => readArray read cs
  | '{' :: cs => item.bind fun read => readBraces read cs
  | '"' :: cs => (readString '"' cs).map fun (s, rest) => (.text s, rest)
  | '\'' :: cs => (readString '\'' cs).map fun (s, rest) => (.text s, rest)
  | cs => readWord cs

/-- Read a value with its place, given how its items are read. -/
def readNodeWith (item : Option (Reader Node)) : Reader Node := fun cs =>
  (readValueWith item cs).map fun (value, rest) => (⟨some (spanOf cs rest), value⟩, rest)

/-- Read a value in which arrays and tables between braces stand at most `depth` deep. -/
def readNode : Nat → Reader Node
  | 0 => readNodeWith none
  | depth + 1 => readNodeWith (some (readNode depth))

/-! ### Statements -/

/-- Drop the end of a line. -/
def dropLineEnd? : List Char → Option (List Char)
  | [] => some []
  | '\n' :: cs => some cs
  | '\r' :: '\n' :: cs => some cs
  | _ => none

/-- Drop the rest of a line with nothing but blanks and a comment. -/
def dropLine? (cs : List Char) : Option (List Char) :=
  match cs.dropWhile isBlank with
  | '#' :: comment => dropLineEnd? (comment.dropWhile isPlain)
  | rest => dropLineEnd? rest

/-- One statement. -/
inductive Statement where
  /-- An entry: a value under a dotted key, the last part of which is `key`. -/
  | entry (path : List Key) (key : Key) (node : Node)
  /-- The header of a table, or of one more table of an array if the brackets are double. -/
  | header (double : Bool) (path : List Key) (key : Key) (span : Span)
  deriving Inhabited, Repr

/-- Read a header after its opening brackets, given where it starts. -/
def readHeader (double : Bool) (start : List Char) : Reader Statement := fun cs =>
  match readKeys keyLimit cs with
  | none => none
  | some ((path, key), rest) =>
    match double, rest with
    | true, ']' :: ']' :: rest => some (.header true path key (spanOf start rest), rest)
    | false, ']' :: rest => some (.header false path key (spanOf start rest), rest)
    | _, _ => none

/-- Read a statement without the rest of its line. -/
def readBare : Reader Statement := fun start =>
  match start with
  | '[' :: '[' :: cs => readHeader true start cs
  | '[' :: cs => readHeader false start cs
  | cs =>
    (readEntry (readNode depthLimit) cs).map fun ((path, key, node), rest) =>
      (.entry path key node, rest)

/-- Read a statement and the rest of its line, or a line without a statement. -/
def readStatement : Reader (Option Statement) := fun cs =>
  match dropLine? cs with
  | some rest => some (none, rest)
  | none =>
    match readBare (cs.dropWhile isBlank) with
    | none => none
    | some (s, rest) => (dropLine? rest).map (some s, ·)

/-- Read the statements of at most the given number of lines. -/
def readStatements : Nat → List Char → Option (List Statement)
  | _, [] => some []
  | 0, _ :: _ => none
  | n + 1, c :: cs =>
    match readStatement (c :: cs) with
    | none => none
    | some (s, rest) => (readStatements n rest).map (s.toList ++ ·)

/-- The statements of a text; a byte order mark may come first. -/
def statements? (cs : List Char) : Option (List Statement) :=
  match cs with
  | '\uFEFF' :: cs => readStatements cs.length cs
  | cs => readStatements cs.length cs

end ViewHolder.Toml
