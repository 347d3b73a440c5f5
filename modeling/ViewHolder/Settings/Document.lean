import ViewHolder.Settings.Basic
import ViewHolder.Toml.Document

/-!
# Settings in a document

The members of a document set the settings of the same names.  A member with another name is
passed over, and its name is noted.  The first value of a wrong kind ends the reading.

## Main definitions

* `Mismatch`, `Mismatch.message` : what is wrong with a value.
* `decodeLevel`, `decodeOutput` : the verbosity that a value stands for.
* `Settings.ofDocument` : the settings of a document, with the names that are no settings.
-/

namespace ViewHolder

open Text (ticked)

/-! ### What is wrong with a value -/

/-- What a value has to be. -/
inductive Expectation where
  | string
  | path
  | list
  | flag
  | count
  | outputTable
  deriving DecidableEq, Inhabited, Repr

/-- What a value has to be, as a report says it. -/
def Expectation.text : Expectation → String
  | string => "a string"
  | path => "path string"
  | list => "a sequence"
  | flag => "a boolean"
  | count => "usize"
  | outputTable => "struct OutputConfig"

/-- What is wrong with a value. -/
inductive Mismatch where
  /-- It is of a wrong kind. -/
  | wrongKind (found : String) (expected : Expectation)
  /-- It is a negative number. -/
  | negative (n : Int)
  /-- It is no name of a level. -/
  | unknownLevel (name : String)
  /-- It can name no level, as it is neither a string nor a table. -/
  | unnamedLevel
  /-- It is a table that names no level. -/
  | noLevel
  /-- It is a table that names several levels. -/
  | severalLevels
  /-- It is the value of a named level and not empty. -/
  | filledArray
  /-- It is the value of a named level and not empty. -/
  | filledTable
  /-- It is the value of a named level and no table. -/
  | noTable (kind : String)
  deriving DecidableEq, Inhabited, Repr

/-- The text of a mismatch. -/
def Mismatch.message : Mismatch → String
  | wrongKind found expected => "invalid type: " ++ found ++ ", expected " ++ expected.text
  | negative n =>
    "invalid value: integer " ++ ticked (toString n) ++ ", expected " ++ Expectation.count.text
  | unknownLevel name =>
    "unknown variant " ++ ticked name ++ ", expected one of "
      ++ ", ".intercalate (Verbosity.all.map fun v => ticked v.name)
  | unnamedLevel => "wanted string or table"
  | noLevel => "wanted exactly 1 element, found 0 elements"
  | severalLevels => "wanted exactly 1 element, more than 1 element"
  | filledArray => "expected empty array"
  | filledTable => "expected empty table"
  | noTable kind => "expected table, found " ++ kind

/-- A mismatch with its place, if the place is known. -/
structure Mistake where
  /-- The part of the text that is wrong. -/
  span : Option Toml.Span
  /-- What is wrong with it. -/
  cause : Mismatch
  deriving DecidableEq, Inhabited, Repr

/-- A mistake whose place is not known is at the given one. -/
def Mistake.orAt (span : Option Toml.Span) (m : Mistake) : Mistake :=
  { m with span := m.span.or span }

/-! ### Single values -/

open Toml (Node Members)

/-- A value is of a wrong kind. -/
def wrongKind {α : Type} (expected : Expectation) (node : Node) : Except Mistake α :=
  .error ⟨node.span, .wrongKind node.value.describe expected⟩

/-- The text of a string. -/
def decodeText (expected : Expectation) (node : Node) : Except Mistake String :=
  match node.value with
  | .text s => .ok s
  | _ => wrongKind expected node

/-- The path that a string writes. -/
def decodePath (node : Node) : Except Mistake Path := (decodeText .path node).map Path.mk

/-- The paths that the strings of an array write. -/
def decodePaths (node : Node) : Except Mistake (List Path) :=
  match node.value with
  | .array items => items.mapM decodePath
  | .tables items => items.mapM decodePath
  | _ => wrongKind .list node

/-- A truth value. -/
def decodeFlag (node : Node) : Except Mistake Bool :=
  match node.value with
  | .boolean b => .ok b
  | _ => wrongKind .flag node

/-- A number that is not negative. -/
def decodeCount (node : Node) : Except Mistake Nat :=
  match node.value with
  | .integer n => if n < 0 then .error ⟨node.span, .negative n⟩ else .ok n.toNat
  | _ => wrongKind .count node

/-! ### Verbosity -/

/-- The level with the given name, which stands at `span`. -/
def levelNamed (span : Option Toml.Span) (name : String) : Except Mistake Verbosity :=
  match Verbosity.ofName? name with
  | some v => .ok v
  | none => .error ⟨span, .unknownLevel name⟩

/-- The value of a named level has to be empty. -/
def checkEmpty (node : Node) : Except Mistake Unit :=
  match node.value with
  | .array items => if items.isEmpty then .ok () else .error ⟨node.span, .filledArray⟩
  | .tables items => if items.isEmpty then .ok () else .error ⟨node.span, .filledArray⟩
  | .table _ members => if members.isEmpty then .ok () else .error ⟨node.span, .filledTable⟩
  | value => .error ⟨node.span, .noTable value.kind⟩

/-- The level that a value stands for: a string with its name, or a table with its name as the only
key. -/
def decodeLevel (node : Node) : Except Mistake Verbosity :=
  match node.value with
  | .text s => levelNamed node.span s
  | .table _ [] => .error ⟨node.span, .noLevel⟩
  | .table _ [(key, inner)] =>
    match levelNamed (some key.span) key.text, checkEmpty inner with
    | .ok v, .ok () => .ok v
    | .ok _, .error m => .error (m.orAt node.span)
    | .error m, _ => .error m
  | .table _ _ => .error ⟨node.span, .severalLevels⟩
  | _ => .error ⟨node.span, .unnamedLevel⟩

/-- What the output table says: the level, if it is set, and the names that are no settings. -/
abbrev OutputSettings := Option Verbosity × List String

/-- Take a member of the output table into account. -/
def setOutputMember (s : OutputSettings) (key : Toml.Key) (node : Node) :
    Except Mistake OutputSettings :=
  if key.text = "verbosity" then
    match decodeLevel node with
    | .ok v => .ok (some v, s.2)
    | .error m => .error (m.orAt (some key.span))
  else .ok (s.1, s.2 ++ [key.text])

/-- What the output table says.  An array may stand in its place, with the level as its first item,
and so may a date, which counts as a table with a single member. -/
def decodeOutput (node : Node) : Except Mistake OutputSettings :=
  match node.value with
  | .table _ members => members.foldlM (fun s m => setOutputMember s m.1 m.2) (none, [])
  | .moment => .ok (none, [Toml.momentKey])
  | .array [] => .ok (none, [])
  | .array (first :: _) => (decodeLevel first).map fun v => (some v, [])
  | .tables [] => .ok (none, [])
  | .tables (first :: _) => (decodeLevel first).map fun v => (some v, [])
  | _ => wrongKind .outputTable node

/-! ### All settings -/

namespace Settings

/-- The names of the settings, those of the output table last. -/
def names : List String :=
  ["package", "output_dir", "res_dirs", "default_include", "widget_package", "jobs",
    "prune_stale", "write_unchanged", "output", "verbosity"]

/-- Take a member of a document into account; the names that are no settings are added to a
list. -/
def setMember (s : Settings × List String) (key : String) (node : Node) :
    Except Mistake (Settings × List String) :=
  let (settings, unknown) := s
  match key with
  | "package" =>
    (decodeText .string node).map fun v => ({ settings with package := some v }, unknown)
  | "output_dir" => (decodePath node).map fun v => ({ settings with outputDir := v }, unknown)
  | "res_dirs" => (decodePaths node).map fun v => ({ settings with resDirs := v }, unknown)
  | "default_include" =>
    (decodeFlag node).map fun v => ({ settings with defaultInclude := v }, unknown)
  | "widget_package" =>
    (decodeText .string node).map fun v => ({ settings with widgetPackage := v }, unknown)
  | "jobs" => (decodeCount node).map fun v => ({ settings with jobs := v }, unknown)
  | "prune_stale" => (decodeFlag node).map fun v => ({ settings with pruneStale := v }, unknown)
  | "write_unchanged" =>
    (decodeFlag node).map fun v => ({ settings with writeUnchanged := v }, unknown)
  | "output" =>
    (decodeOutput node).map fun (level, names) =>
      ({ settings with verbosity := level.getD settings.verbosity }, unknown ++ names)
  | name => .ok (settings, unknown ++ [name])

/-- Take a member of a document into account; a mistake without a place is at the key. -/
def addMember (s : Settings × List String) (key : Toml.Key) (node : Node) :
    Except (Toml.Span × Mismatch) (Settings × List String) :=
  match setMember s key.text node with
  | .ok s => .ok s
  | .error m => .error (m.span.getD key.span, m.cause)

/-- The settings of a document, with the names that are no settings, or the first mistake. -/
def ofDocument (members : Members) :
    Except (Toml.Span × Mismatch) (Settings × List String) :=
  members.foldlM (fun s m => addMember s m.1 m.2) (unset, [])

end Settings

end ViewHolder
