import ViewHolder.Path.Basic
import ViewHolder.Settings.Document
import ViewHolder.Text.Basic
import ViewHolder.Text.Distance

/-!
# Warnings about settings

A name that is no setting is reported with a line of the file and, if there is one, with a setting
that has a similar name.

## Main definitions

* `SettingsWarning` : a name that is no setting.
* `lineOf?` : the first line that contains a name.
* `nearestName?` : the setting whose name is nearest.
-/

namespace ViewHolder

open Text (ticked)

/-- A name that is no setting. -/
structure SettingsWarning where
  /-- The name. -/
  key : String
  /-- The file with the name. -/
  file : Path
  /-- The number of the first line that contains the name. -/
  line : Option Nat
  /-- A setting with a similar name. -/
  suggestion : Option String
  deriving DecidableEq, Inhabited, Repr

/-! ### The line of a name -/

/-- Whether a list contains another one as a piece. -/
def containsPiece (piece : List Char) : List Char → Bool
  | [] => piece.isEmpty
  | c :: cs => piece.isPrefixOf (c :: cs) || containsPiece piece cs

/-- The number of the first line of a text that contains a name. -/
def lineOf? (text name : String) : Option Nat :=
  ((Text.lines text.toList).findIdx? (containsPiece name.toList)).map (· + 1)

/-! ### Similar names -/

/-- The largest distance of a name that is taken for a slip. -/
def slipDistance : Nat := 2

/-- The first one of two candidates, unless the second one is nearer. -/
def nearer (best candidate : String × Nat) : String × Nat :=
  if candidate.2 < best.2 then candidate else best

/-- The first one of the candidates that are nearest to a name. -/
def nearestOf (name : String) : List String → Option (String × Nat)
  | [] => none
  | c :: cs =>
    let first := (c, Text.byteDistance name c)
    some (cs.foldl (fun best c => nearer best (c, Text.byteDistance name c)) first)

/-- The setting whose name is nearest to a name, if it is near enough. -/
def nearestName? (name : String) : Option String :=
  match nearestOf name Settings.names with
  | some (candidate, d) => if d ≤ slipDistance then some candidate else none
  | none => none

/-! ### Warnings -/

/-- The part of a name after its last dot. -/
def lastPart (name : String) : String :=
  String.ofList (name.toList.reverse.takeWhile (· != '.')).reverse

namespace SettingsWarning

/-- The warning about a name in a file with the given text. -/
def ofName (file : Path) (text name : String) : SettingsWarning :=
  let key := lastPart name
  ⟨key, file, lineOf? text key, nearestName? key⟩

/-- The place of a name: its file, and its line if it has been found. -/
def place (w : SettingsWarning) : String :=
  match w.line with
  | some n => w.file.text ++ ":" ++ toString n
  | none => w.file.text

/-- A warning as a line for people. -/
def message (w : SettingsWarning) : String :=
  let text := "warning: unknown config key " ++ ticked w.key ++ " in " ++ w.place
  match w.suggestion with
  | some name => text ++ " (did you mean " ++ ticked name ++ "?)"
  | none => text

end SettingsWarning

end ViewHolder
