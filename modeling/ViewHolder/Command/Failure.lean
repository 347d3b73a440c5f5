import ViewHolder.Compile.Error
import ViewHolder.Settings.Lookup
import ViewHolder.Text.Basic

/-!
# Failures of commands

A command that fails reports the failure and what lies behind it: a single cause stands indented,
several causes are numbered.

## Main definitions

* `CommandError`, `CommandError.message`, `CommandError.causes` : why a command failed.
* `failureText` : the report of a failure.
-/

namespace ViewHolder

/-- Why a command failed. -/
inductive CommandError where
  /-- The settings cannot be loaded. -/
  | settings (file : Path) (cause : SettingsError)
  /-- No package is set. -/
  | missingPackage
  /-- The compile run failed. -/
  | compiling (cause : CompileError)
  deriving DecidableEq, Inhabited, Repr

namespace CommandError

/-- The text of an error. -/
def message : CommandError → String
  | settings file _ => "failed to load config " ++ file.text
  | missingPackage => Settings.missingPackage
  | compiling cause => cause.message

/-- The texts of what lies behind an error. -/
def causes : CommandError → List String
  | settings _ cause => cause.message :: cause.causes
  | missingPackage => []
  | compiling cause => cause.causes

end CommandError

/-! ### Reports -/

/-- A text with `first` in front of its first line and `later` in front of all others. -/
def indented (first later text : String) : String :=
  first ++ ("\n" ++ later).intercalate
    ((Text.pieces Text.isLineEnd text.toList).map String.ofList)

/-- The space in front of causes that are not numbered. -/
def causeIndent : String := "    "

/-- The space in front of the later lines of causes that are numbered. -/
def numberedIndent : String := "       "

/-- A number in five columns. -/
def columnsOf (n : Nat) : String :=
  let digits := toString n
  String.ofList (List.replicate (5 - digits.length) ' ') ++ digits

/-- A cause with its number. -/
def numberedCause (n : Nat) (cause : String) : String :=
  indented (columnsOf n ++ ": ") numberedIndent cause

/-- Some causes. -/
def causesText : List String → List String
  | [] => []
  | [cause] => ["", "Caused by:", indented causeIndent causeIndent cause]
  | causes => "" :: "Caused by:" :: causes.zipIdx.map fun (cause, n) => numberedCause n cause

/-- The report of a failure. -/
def failureText (message : String) (causes : List String) : String :=
  "\n".intercalate (("Error: " ++ message) :: causesText causes)

end ViewHolder
