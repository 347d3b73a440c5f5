import ViewHolder.Settings.Basic
import ViewHolder.Text.Digits

/-!
# Settings in the environment

Some settings may be overridden by variables of the environment.  A value that cannot be used
leaves a setting as it is, except that any value of the verbosity counts.

## Main definitions

* `Environment` : the variables that are set.
* `flagOf?`, `countOf?` : what the value of a variable says.
* `Settings.override` : the settings after the environment has been looked at.
-/

namespace ViewHolder

/-- The values of the variables that are set. -/
abbrev Environment := String → Option String

/-- The variables of a list of names and values; the first value of a name counts. -/
def Environment.ofList (vars : List (String × String)) : Environment := fun name =>
  vars.lookup name

/-! ### Values of variables -/

/-- A text, unless it is blank. -/
def nameOf? (s : String) : Option String :=
  let name := Text.trim s
  if name.isEmpty then none else some name

/-- A path, unless it is empty. -/
def pathOf? (s : String) : Option Path := if s.isEmpty then none else some ⟨s⟩

/-- The words for yes. -/
def yesWords : List String := ["true", "1", "yes", "on"]

/-- The words for no. -/
def noWords : List String := ["false", "0", "no", "off"]

/-- The truth value that a word stands for, whatever the case of its letters. -/
def flagOf? (s : String) : Option Bool :=
  let word := String.ofList ((Text.trimChars s.toList).map Char.toLower)
  if yesWords.contains word then some true
  else if noWords.contains word then some false
  else none

/-- The number that some characters write; a plus sign may come first, and the number has 64
bits. -/
def countOfChars? (cs : List Char) : Option Nat :=
  let digits := match cs with
    | '+' :: digits => digits
    | digits => digits
  match Text.ofDigits? 10 digits with
  | some n => if n < UInt64.size then some n else none
  | none => none

/-- The number that a text writes, with blanks around it. -/
def countOf? (s : String) : Option Nat := countOfChars? (Text.trimChars s.toList)

/-! ### Overriding settings -/

namespace Settings

/-- The settings after the environment has been looked at. -/
def override (s : Settings) (env : Environment) : Settings :=
  { s with
    package := ((env "HOLDR_PACKAGE").bind nameOf?).or s.package
    outputDir := ((env "HOLDR_OUTPUT_DIR").bind pathOf?).getD s.outputDir
    defaultInclude := ((env "HOLDR_DEFAULT_INCLUDE").bind flagOf?).getD s.defaultInclude
    jobs := ((env "HOLDR_JOBS").bind countOf?).getD s.jobs
    pruneStale := ((env "HOLDR_PRUNE_STALE").bind flagOf?).getD s.pruneStale
    verbosity := ((env "HOLDR_VERBOSITY").map Verbosity.ofName).getD s.verbosity }

end Settings

end ViewHolder
