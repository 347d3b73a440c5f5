import ViewHolder.Command.Arguments
import ViewHolder.Command.Failure
import ViewHolder.Holder.Name
import ViewHolder.Watch.Session

/-!
# Sessions

A session carries out a command on a disk and in an environment.  A compile run reports its progress
to people on the error channel and as JSON lines on the output channel; a watch reports to people on
the output channel, except for failures.

## Main definitions

* `Line` : a line that a command writes.
* `Invocation.settings` : the settings that an invocation works with.
* `Watch` : a watch that has begun.
* `Invocation.run`, `runArguments` : carrying out a command.
-/

namespace ViewHolder

/-- A line that a command writes. -/
inductive Line where
  /-- A line of the output. -/
  | out (text : String)
  /-- A line of the error channel. -/
  | err (text : String)
  deriving DecidableEq, Inhabited, Repr

namespace Line

/-- The text of a line of the output. -/
def out? : Line → Option String
  | out s => some s
  | err _ => none

/-- The text of a line of the error channel. -/
def err? : Line → Option String
  | out _ => none
  | err s => some s

end Line

/-! ### Settings -/

/-- The settings with those of a command line in their place. -/
def Settings.overriddenBy (s : Settings) (o : Overrides) : Settings :=
  { s with
    resDirs := if o.resDirs.isEmpty then s.resDirs else o.resDirs
    outputDir := o.outputDir.getD s.outputDir
    package := o.package.or s.package
    defaultInclude := s.defaultInclude && !o.noDefaultInclude
    jobs := o.jobs.getD s.jobs
    pruneStale := s.pruneStale || o.prune }

namespace Invocation

/-- The file with the settings: the one that is named, or that of the project if it is there. -/
def settingsFile? (i : Invocation) (d : Disk) : Option Path :=
  i.config.or (if d.isFile ⟨projectFileName⟩ then some ⟨projectFileName⟩ else none)

/-- The settings that an invocation works with, with warnings.  Only a file that is named or that
belongs to the project has to be usable, and only such a file gives warnings. -/
def settings (i : Invocation) (d : Disk) (env : Environment) :
    Except CommandError (Settings × List SettingsWarning) :=
  match i.settingsFile? d with
  | none => .ok (Settings.find d env none, [])
  | some file =>
    match Settings.load d file with
    | .error e => .error (.settings file e)
    | .ok (s, warnings) => .ok (s.override env, warnings)

/-- How much an invocation says. -/
def verbosity (i : Invocation) (s : Settings) : Verbosity :=
  if i.quiet then .quiet
  else
    match i.verbose with
    | 0 => s.verbosity
    | 1 => .verbose
    | _ => .debug

end Invocation

/-! ### Outcomes -/

/-- A watch that has begun. -/
structure Watch where
  /-- The options of its compile runs. -/
  options : CompileOptions
  /-- The resource roots that are watched. -/
  roots : List Path
  /-- Whether it reports as JSON lines. -/
  json : Bool
  /-- How much it says. -/
  verbosity : Verbosity
  deriving DecidableEq, Inhabited, Repr

namespace Watch

/-- The line that tells of an event, if one does. -/
def line? (w : Watch) (e : WatchEvent) : Option Line :=
  if w.json then some (.out e.json)
  else (e.line? w.verbosity).map fun s => if e.isFailure then .err s else .out s

/-- The lines that tell of some events. -/
def lines (w : Watch) (events : List WatchEvent) : List Line := events.filterMap w.line?

/-- The beginning of a watch. -/
def start (w : Watch) (d : Disk) : List Line × Disk :=
  let step := startWatch w.options w.roots d
  (w.lines step.events, step.store)

/-- What a watch does with a batch of changes. -/
def batch (w : Watch) (paths : List Path) (d : Disk) : List Line × Disk :=
  let step := compileBatch w.options paths d
  (w.lines step.events, step.store)

/-- The end of a watch. -/
def stop (w : Watch) : List Line := w.lines [.shutdown]

end Watch

/-- What follows when a command has done its work. -/
inductive Next where
  /-- The command ends with a status. -/
  | exit (status : Nat)
  /-- A watch goes on. -/
  | watching (watch : Watch)
  deriving DecidableEq, Inhabited, Repr

/-- What a command does. -/
structure Outcome where
  /-- The lines that it writes. -/
  lines : List Line
  /-- The disk that it leaves. -/
  disk : Disk
  /-- What follows. -/
  next : Next
  deriving Inhabited

namespace Outcome

/-- A command fails after some lines. -/
def failed (lines : List Line) (d : Disk) (e : CommandError) : Outcome :=
  ⟨lines ++ [.err (failureText e.message e.causes)], d, .exit 1⟩

end Outcome

/-! ### Commands -/

namespace Invocation

/-- The lines that warn of settings; JSON lines are not mixed with them. -/
def warningLines (i : Invocation) (warnings : List SettingsWarning) : List Line :=
  if i.json then [] else warnings.map fun w => .err w.message

/-- The lines that tell of the events of a compile run. -/
def compileLines (i : Invocation) (s : Settings) (events : List CompileEvent) : List Line :=
  if i.json then (Listener.json.hear events).map .out
  else ((Listener.console (i.verbosity s)).hear events).map .err

/-- The outcome of a compile run after some lines. -/
def ofProgress (i : Invocation) (lines : List Line) (s : Settings) (p : Progress Disk Report) :
    Outcome :=
  let lines := lines ++ i.compileLines s p.events
  match p.result with
  | .ok _ => ⟨lines, p.store, .exit 0⟩
  | .error e => .failed lines p.store (.compiling e)

/-- Carry out a command that needs settings. -/
def runWith (i : Invocation) (d : Disk) (env : Environment) (o : Overrides)
    (command : List Line → Settings → CompileOptions → Outcome) : Outcome :=
  match i.settings d env with
  | .error e => .failed [] d e
  | .ok (s, warnings) =>
    let lines := i.warningLines warnings
    match (s.overriddenBy o).compileOptions? with
    | none => .failed lines d .missingPackage
    | some opts => command lines (s.overriddenBy o) opts

/-- Carry out an invocation. -/
def run (i : Invocation) (d : Disk) (env : Environment) : Outcome :=
  match i.command with
  | .className layout => ⟨[.out (Holder.className layout)], d, .exit 0⟩
  | .compile o =>
    i.runWith d env o fun lines s opts => i.ofProgress lines s (compile opts s.resDirs d)
  | .incremental changed removed o =>
    i.runWith d env o fun lines s opts =>
      i.ofProgress lines s (compileIncremental opts changed removed d)
  | .watch o =>
    i.runWith d env o fun lines s opts =>
      let w : Watch := ⟨opts, s.resDirs, i.json, i.verbosity s⟩
      let (more, d) := w.start d
      ⟨lines ++ more, d, .watching w⟩

end Invocation

/-- The line that answers a question for the version. -/
def versionText : String := "holdr 0.4.0"

/-- How the command line is used, line by line. -/
def usageLines : List String :=
  ["Usage: holdr [--config FILE] [--json] [-v | -q] COMMAND",
    "",
    "Commands:",
    "  compile      Generate holders for every layout",
    "  incremental  Regenerate holders affected by changed or removed layout files",
    "  watch        Compile, then recompile on every layout change",
    "  class-name   Print the holder class name of a layout"]

/-- The outcome when no command is carried out. -/
def Halt.outcome (h : Halt) (d : Disk) : Outcome :=
  match h with
  | version => ⟨[.out versionText], d, .exit 0⟩
  | help => ⟨usageLines.map .out, d, .exit 0⟩
  | misuse cause => ⟨.err cause.message :: usageLines.map .err, d, .exit 2⟩

/-- Carry out what the arguments of a command line ask for. -/
def runArguments (args : List String) (d : Disk) (env : Environment) : Outcome :=
  match Invocation.ofArguments args with
  | .error h => h.outcome d
  | .ok i => i.run d env

end ViewHolder
