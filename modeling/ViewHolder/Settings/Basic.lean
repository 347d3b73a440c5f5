import ViewHolder.Compile.Options
import ViewHolder.Settings.Verbosity
import ViewHolder.Text.Blank

/-!
# Settings

What a project or a user may set.

## Main definitions

* `Settings` : the settings and their defaults.
* `Settings.compileOptions?` : the options of a compile run.
-/

namespace ViewHolder

/-- What a project or a user may set. -/
structure Settings where
  /-- The package of the application. -/
  package : Option String := none
  /-- The directory below which holders are written. -/
  outputDir : Path := defaultOutputDir
  /-- The resource roots of the project. -/
  resDirs : List Path := defaultResDirs
  /-- Whether an element with an id is taken without asking for it. -/
  defaultInclude : Bool := true
  /-- The package of the widgets whose names have no package. -/
  widgetPackage : String := defaultWidgetPackage
  /-- How many layouts may be worked on at once. -/
  jobs : Nat := 0
  /-- Whether holders that no layout needs any more are deleted. -/
  pruneStale : Bool := false
  /-- Whether holders are written even if they are up to date. -/
  writeUnchanged : Bool := false
  /-- How much commands say. -/
  verbosity : Verbosity := .normal
  deriving DecidableEq, Inhabited, Repr

namespace Settings

/-- The settings when nothing is set. -/
def unset : Settings := {}

/-- The package of the application, without blanks around it, unless it is blank. -/
def packageName? (s : Settings) : Option String :=
  match s.package.map Text.trim with
  | some name => if name.isEmpty then none else some name
  | none => none

/-- The text of the failure to find out the package. -/
def missingPackage : String :=
  "no base package configured - set `package` in holdr.toml, HOLDR_PACKAGE or --package"

/-- The options of a compile run; there are none without a package. -/
def compileOptions? (s : Settings) : Option CompileOptions :=
  s.packageName?.map fun package =>
    { package
      outputDir := s.outputDir
      resDirs := s.resDirs
      defaultInclude := s.defaultInclude
      widgetPackage := s.widgetPackage
      jobs := s.jobs
      pruneStale := s.pruneStale
      writeUnchanged := s.writeUnchanged }

end Settings

end ViewHolder
