import ViewHolder.Text.Basic
import ViewHolder.Toml.Value

/-!
# Reports about TOML texts

A report shows the line that something is wrong with, and marks the place on it.

## Main definitions

* `Toml.Excerpt`, `Toml.Excerpt.ofSpan` : a line of a text with a place on it.
* `Toml.report` : the text of a report.
-/

namespace ViewHolder.Toml

/-- A line of a text with a place on it. -/
structure Excerpt where
  /-- The number of the line, from one on. -/
  line : Nat
  /-- The number of characters in front of the place. -/
  offset : Nat
  /-- The characters of the line. -/
  content : List Char
  /-- How many characters are marked, if that many are there. -/
  size : Nat
  deriving DecidableEq, Inhabited, Repr

namespace Excerpt

/-- The line on which a part of a text begins. -/
def ofSpan (text : String) (span : Span) : Excerpt :=
  let (before, rest) := Text.cutBytes (text.utf8ByteSize - span.left) text.toList
  let start := (before.reverse.takeWhile fun c => !Text.isLineEnd c).reverse
  { line := before.countP Text.isLineEnd + 1
    offset := start.length
    content := start ++ rest.takeWhile fun c => !Text.isLineEnd c
    size := span.size }

/-- The number of marks: one for every byte of the part, as far as the line goes, and one at
least. -/
def marks (e : Excerpt) : Nat := max 1 (min e.size (Text.byteSize e.content - e.offset))

/-- A character several times. -/
def repeated (n : Nat) (c : Char) : String := String.ofList (List.replicate n c)

/-- The empty start of a line that belongs to a line with a number in front. -/
def gutter (e : Excerpt) : String := repeated ((toString e.line).length + 1) ' ' ++ "|"

/-- An excerpt with the place marked. -/
def text (e : Excerpt) : String :=
  e.gutter ++ "\n" ++ toString e.line ++ " | " ++ String.ofList e.content ++ "\n" ++ e.gutter
    ++ repeated (e.offset + 1) ' ' ++ repeated e.marks '^' ++ "\n"

end Excerpt

/-- A report about a part of a text. -/
def report (text : String) (span : Span) (message : String) : String :=
  let e := Excerpt.ofSpan text span
  "TOML parse error at line " ++ toString e.line ++ ", column " ++ toString (e.offset + 1) ++ "\n"
    ++ e.text ++ message ++ "\n"

end ViewHolder.Toml
