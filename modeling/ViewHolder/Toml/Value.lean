import ViewHolder.Decimal.Shortest
import ViewHolder.Text.Quoted

/-!
# TOML values

A TOML text is a table of keys and values.  Values and keys know the part of the text that they
come from.

## Main definitions

* `Toml.Span`, `Toml.Located` : a part of a text, and what comes from it.
* `Toml.Key`, `Toml.Value` : keys and values.
* `Toml.Origin` : how a table came about.
* `Toml.Value.kind`, `Toml.Value.describe` : what a value is, for reports.
-/

namespace ViewHolder.Toml

/-- A part of a text.  Bytes are counted from the end of the text, so that a reader that sees
only the rest of the text can tell where it stands. -/
structure Span where
  /-- The bytes from the start of the part to the end of the text. -/
  left : Nat
  /-- The bytes from the end of the part to the end of the text. -/
  after : Nat
  deriving DecidableEq, Inhabited, Repr

/-- The number of bytes of a part. -/
def Span.size (s : Span) : Nat := s.left - s.after

/-- The part from the start of one part to the end of another one. -/
def Span.upTo (s t : Span) : Span := ⟨s.left, t.after⟩

/-- Something with the part of the text that it comes from, if that is a single part. -/
structure Located (α : Type) where
  /-- The part of the text. -/
  span : Option Span
  /-- What comes from it. -/
  value : α
  deriving Inhabited, Repr

/-- A key. -/
structure Key where
  /-- The part of the text that it comes from. -/
  span : Span
  /-- The text of the key, without quotes. -/
  text : String
  deriving DecidableEq, Inhabited, Repr

/-- How a table came about. -/
inductive Origin where
  /-- A header names it, or it is the whole document. -/
  | header
  /-- Only headers of tables in it name it. -/
  | implied
  /-- The dots of a key name it. -/
  | dotted
  /-- It stands between braces. -/
  | braces
  deriving DecidableEq, Inhabited, Repr

/-- A value. -/
inductive Value where
  /-- A string. -/
  | text (s : String)
  /-- A whole number. -/
  | integer (n : Int)
  /-- A floating point number. -/
  | float (x : Binary64)
  /-- A truth value. -/
  | boolean (b : Bool)
  /-- A date, a time, or both. -/
  | moment
  /-- An array between brackets. -/
  | array (items : List (Located Value))
  /-- The tables that headers in double brackets name. -/
  | tables (items : List (Located Value))
  /-- A table, its members in the order in which they were first named. -/
  | table (origin : Origin) (members : List (Key × Located Value))
  deriving Inhabited, Repr

/-- A value with its place. -/
abbrev Node := Located Value

/-- The members of a table. -/
abbrev Members := List (Key × Node)

/-- The member that a date counts as having when a table is expected in its place. -/
def momentKey : String := "$__toml_private_datetime"

namespace Value

/-- The name of the kind of a value. -/
def kind : Value → String
  | text _ => "string"
  | integer _ => "integer"
  | float _ => "float"
  | boolean _ => "boolean"
  | moment => "datetime"
  | array _ => "array"
  | tables _ => "array of tables"
  | table .braces _ => "inline table"
  | table _ _ => "table"

/-- A value as a report shows it. -/
def describe : Value → String
  | text s => "string " ++ Text.quoted s
  | integer n => "integer `" ++ toString n ++ "`"
  | float x => "floating point `" ++ x.text ++ "`"
  | boolean b => "boolean `" ++ toString b ++ "`"
  | moment => "map"
  | array _ => "sequence"
  | tables _ => "sequence"
  | table _ _ => "map"

end Value

end ViewHolder.Toml
