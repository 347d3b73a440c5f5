import ViewHolder.Compile.Run
import ViewHolder.Watch.Event
import ViewHolder.Watch.Pending

/-!
# Watch sessions

A watch compiles all its resource roots once and then compiles what each batch of changes
affects.  A failing compile run is reported, and the watch goes on.

## Main definitions

* `classifyChanges` : a batch split into the files that are there and those that are gone.
* `initialCompile`, `compileBatch` : the compile runs of a watch.
* `startWatch` : the beginning of a watch.
-/

namespace ViewHolder

/-- Split the layout files of a batch into those that are there and those that are gone. -/
def classifyChanges (isFile : Path → Bool) (paths : List Path) : List Path × List Path :=
  (paths.filter LayoutFile.isCandidate).partition isFile

/-- The outcome of a compile run as an event. -/
def reportEvent : Except CompileError Report → WatchEvent
  | .ok r => .compileComplete r.written.length r.unchanged.length r.pruned.length
  | .error e => .failed e.message

/-- What a watch does with a compile run: its own events, those of the run, and the store. -/
structure WatchStep (σ : Type) where
  /-- The store. -/
  store : σ
  /-- The events of the watch. -/
  events : List WatchEvent
  /-- The events of the compile run. -/
  compileEvents : List CompileEvent

variable {σ : Type} [Store σ]

/-- The step of a watch that carries out a compile run after some events. -/
def WatchStep.ofRun (before : List WatchEvent) (p : Progress σ Report) : WatchStep σ :=
  ⟨p.store, before ++ [.compileStarted, reportEvent p.result], p.events⟩

/-- Compile every layout file of the watched resource roots. -/
def initialCompile (opts : CompileOptions) (roots : List Path) (s : σ) : WatchStep σ :=
  .ofRun [] (compile opts roots s)

/-- Compile what a batch of changes affects; a batch without layout files is passed over. -/
def compileBatch (opts : CompileOptions) (paths : List Path) (s : σ) : WatchStep σ :=
  let (changed, removed) := classifyChanges (Store.isFile s) paths
  if changed.isEmpty && removed.isEmpty then ⟨s, [], []⟩
  else
    .ofRun (changed.map (fun p => .changed p.text) ++ removed.map fun p => .removed p.text)
      (compileIncremental opts changed removed s)

/-- The directories among some resource roots that are there to be watched. -/
def watchedDirs (roots : List Path) (s : σ) : List Path := roots.filter (Store.isDir s)

/-- Begin a watch: name the directories that are watched and compile all resource roots. -/
def startWatch (opts : CompileOptions) (roots : List Path) (s : σ) : WatchStep σ :=
  let first := initialCompile opts roots s
  { first with events := .started ((watchedDirs roots s).map (·.text)) :: first.events }

end ViewHolder
