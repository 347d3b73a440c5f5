import ViewHolder.Layout.Reader
import ViewHolder.Path.Basic

/-!
# Options of a compile run

What a run has to know about the project.

## Main definitions

* `CompileOptions` : the options and their defaults.
-/

namespace ViewHolder

/-- Where holders go when a project does not say. -/
def defaultOutputDir : Path := ⟨"build/generated/holdr"⟩

/-- The resource roots of a project that names none. -/
def defaultResDirs : List Path := [⟨"src/main/res"⟩]

/-- What a run has to know about the project. -/
structure CompileOptions where
  /-- The package of the application. -/
  package : String
  /-- The directory below which holders are written. -/
  outputDir : Path := defaultOutputDir
  /-- The resource roots of the project. -/
  resDirs : List Path := defaultResDirs
  /-- Whether an element with an id is taken without asking for it. -/
  defaultInclude : Bool := true
  /-- The package of the widgets whose names have no package. -/
  widgetPackage : String := defaultWidgetPackage
  /-- How many layouts may be worked on at once; no result depends on it. -/
  jobs : Nat := 0
  /-- Whether holders that no layout needs any more are deleted. -/
  pruneStale : Bool := false
  /-- Whether holders are written even if they are up to date. -/
  writeUnchanged : Bool := false
  deriving DecidableEq, Inhabited, Repr

/-- The part of the options that the reading of layouts depends on. -/
def CompileOptions.reading (opts : CompileOptions) : ReadingOptions :=
  ⟨opts.defaultInclude, opts.widgetPackage⟩

end ViewHolder
