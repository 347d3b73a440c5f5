import ViewHolder.Settings.Environment
import ViewHolder.Settings.Warning
import ViewHolder.Store.Disk
import ViewHolder.Toml.Report

/-!
# Finding settings

Settings come from the file of the project, or else from the file of the user; without a usable
file nothing is set.  The environment has the last word.

## Main definitions

* `SettingsError` : why a file gives no settings.
* `Settings.parse`, `Settings.load` : the settings of a text and of a file, with warnings.
* `Settings.find` : the settings of a project.
-/

namespace ViewHolder

/-- Why a file gives no settings. -/
inductive SettingsError where
  /-- The file cannot be read. -/
  | unreadable (cause : DiskFault)
  /-- The text is no document. -/
  | malformed (file : Path)
  /-- A value is not what it has to be, as a report says. -/
  | mismatched (file : Path) (report : String)
  deriving DecidableEq, Inhabited, Repr

namespace SettingsError

/-- The text of an error. -/
def message : SettingsError → String
  | unreadable cause => "IO error: " ++ cause.text
  | malformed file => "invalid configuration in " ++ file.text ++ ": no TOML document"
  | mismatched file report => "invalid configuration in " ++ file.text ++ ": " ++ report

/-- The texts of what lies behind an error. -/
def causes : SettingsError → List String
  | unreadable cause => [cause.text]
  | _ => []

end SettingsError

/-- The name of the file of a project. -/
def projectFileName : String := "holdr.toml"

/-- The file of a user, below the directory with the files of all programs. -/
def userFileName : String := "holdr/config.toml"

/-- The directory with the settings of a user: a variable names it by an absolute path, or it is in
the home directory. -/
def userDir? (env : Environment) : Option Path :=
  match ((env "XDG_CONFIG_HOME").map Path.mk).filter (·.isAbsolute) with
  | some dir => some dir
  | none => (env "HOME").map fun home => (Path.mk home).join ⟨".config"⟩

namespace Settings

/-- The settings of a text, with warnings. -/
def parse (file : Path) (text : String) :
    Except SettingsError (Settings × List SettingsWarning) :=
  match Toml.document? text with
  | none => .error (.malformed file)
  | some members =>
    match ofDocument members with
    | .error (span, cause) => .error (.mismatched file (Toml.report text span cause.message))
    | .ok (settings, unknown) => .ok (settings, unknown.map (.ofName file text))

/-- The settings of a file, with warnings. -/
def load (d : Disk) (file : Path) : Except SettingsError (Settings × List SettingsWarning) :=
  match d.readText file with
  | .error cause => .error (.unreadable cause)
  | .ok text => parse file text

/-- The settings of a file, if it has any. -/
def ofFile? (d : Disk) (file : Path) : Option Settings :=
  match load d file with
  | .ok (settings, _) => some settings
  | .error _ => none

/-- The files that may have settings, the best one first. -/
def candidateFiles (env : Environment) (project : Option Path) : List Path :=
  (project.map fun dir => dir.join ⟨projectFileName⟩).toList
    ++ ((userDir? env).map fun dir => dir.join ⟨userFileName⟩).toList

/-- The settings of a project. -/
def find (d : Disk) (env : Environment) (project : Option Path) : Settings :=
  (((candidateFiles env project).findSome? (ofFile? d)).getD unset).override env

end Settings

end ViewHolder
