import ViewHolder.Compile.Affected
import ViewHolder.Compile.Event
import ViewHolder.Compile.Options
import ViewHolder.Holder.Source

/-!
# Compile runs

A run reads its layout files, merges the variants of each layout, writes the holders that are not
up to date, and may delete the holders that no layout needs any more.  The first failure ends the
run; what was written before it stays.

## Main definitions

* `Progress` : the state of a run with its events so far and its result.
* `readAll`, `writeAll`, `prune` : the stages of a run.
* `compile`, `compileIncremental` : a run over resource roots, and one after some changes.
-/

namespace ViewHolder

/-- What a successful run did. -/
structure Report where
  /-- The number of layout files that were read. -/
  parsed : Nat
  /-- The holders that were written. -/
  written : List Path
  /-- The holders that were up to date. -/
  unchanged : List Path
  /-- The layouts without views. -/
  empty : List String
  /-- The holders that were deleted. -/
  pruned : List Path
  deriving DecidableEq, Inhabited, Repr

namespace Report

/-- The report of a run that had nothing to do. -/
def nothing : Report := ⟨0, [], [], [], []⟩

/-- Whether the run wrote or deleted a holder. -/
def hasChanges (r : Report) : Bool := !r.written.isEmpty || !r.pruned.isEmpty

/-- The number of holders that the run made, written or not. -/
def outputCount (r : Report) : Nat := r.written.length + r.unchanged.length

end Report

/-- The state of a run: the store, the events so far, and the result or the failure that ended
it. -/
structure Progress (σ α : Type) where
  /-- The store. -/
  store : σ
  /-- The events so far. -/
  events : List CompileEvent
  /-- The result. -/
  result : Except CompileError α

/-- Go on with a run unless it has failed. -/
def Progress.andThen {σ α β : Type} (p : Progress σ α) (next : σ → α → Progress σ β) :
    Progress σ β :=
  match p.result with
  | .error e => ⟨p.store, p.events, .error e⟩
  | .ok a =>
    let q := next p.store a
    ⟨q.store, p.events ++ q.events, q.result⟩

variable {σ : Type} [Store σ]

/-! ### Reading -/

/-- Read a layout file. -/
def readLayout (opts : CompileOptions) (s : σ) (file : Path) : Except CompileError Layout :=
  match Store.read s file with
  | .error e => .error (.reading file e)
  | .ok source =>
    match Layout.read opts.reading file.stem source with
    | .error f => .error (.parsing file f)
    | .ok l => .ok l

/-- Read layout files in order, up to the first failure. -/
def readAll (opts : CompileOptions) (s : σ) : List Path → Progress σ (List Layout)
  | [] => ⟨s, [], .ok []⟩
  | file :: rest =>
    match readLayout opts s file with
    | .error e => ⟨s, [], .error e⟩
    | .ok l =>
      let later := readAll opts s rest
      ⟨s, .parsed file l.views.length :: later.events, later.result.map (l :: ·)⟩

/-! ### Writing -/

/-- The file of the holder of a layout. -/
def holderPath (opts : CompileOptions) (layoutName : String) : Path :=
  Holder.outputPath opts.package opts.outputDir layoutName

/-- Whether a file holds a text already. -/
def holds (s : σ) (file : Path) (text : String) : Bool :=
  Store.isFile s file &&
    match Store.read s file with
    | .ok existing => existing == text
    | .error _ => false

/-- Create the directory of a file. -/
def createParent (s : σ) (file : Path) : Progress σ Unit :=
  match file.parent? with
  | none => ⟨s, [], .ok ()⟩
  | some dir =>
    if dir.isEmpty then ⟨s, [], .ok ()⟩
    else
      match Store.createDir s dir with
      | (.ok (), s') => ⟨s', [], .ok ()⟩
      | (.error e, s') => ⟨s', [], .error (.creating dir e)⟩

/-- What became of a holder that a run made. -/
inductive Output where
  | written (file : Path)
  | unchanged (file : Path)
  deriving DecidableEq, Inhabited, Repr

/-- The file of a holder that was written. -/
def Output.written? : Output → Option Path
  | written p => some p
  | unchanged _ => none

/-- The file of a holder that was up to date. -/
def Output.unchanged? : Output → Option Path
  | written _ => none
  | unchanged p => some p

/-- Write the holder of a layout unless it is up to date. -/
def writeHolder (opts : CompileOptions) (s : σ) (l : Layout) : Progress σ Output :=
  let file := holderPath opts l.name
  let text := Holder.source opts.package l
  if !opts.writeUnchanged && holds s file text then
    ⟨s, [.unchanged l.name file], .ok (.unchanged file)⟩
  else
    (createParent s file).andThen fun s _ =>
      match Store.write s file text with
      | (.ok (), s') => ⟨s', [.written l.name file], .ok (.written file)⟩
      | (.error e, s') => ⟨s', [], .error (.writing file e)⟩

/-- Write the holders of some layouts in order. -/
def writeAll (opts : CompileOptions) (s : σ) : List Layout → Progress σ (List Output)
  | [] => ⟨s, [], .ok []⟩
  | l :: rest =>
    (writeHolder opts s l).andThen fun s output =>
      (writeAll opts s rest).andThen fun s outputs => ⟨s, [], .ok (output :: outputs)⟩

/-! ### Pruning -/

/-- Delete the holder of a layout if it is there; the result is what was deleted. -/
def pruneHolder (opts : CompileOptions) (s : σ) (name : String) : Progress σ (List Path) :=
  let file := holderPath opts name
  if Store.isFile s file then
    match Store.remove s file with
    | (.ok (), s') => ⟨s', [.pruned name file], .ok [file]⟩
    | (.error e, s') => ⟨s', [], .error (.writing file e)⟩
  else ⟨s, [], .ok []⟩

/-- Delete the holders of some layouts in order. -/
def pruneAll (opts : CompileOptions) (s : σ) : List String → Progress σ (List Path)
  | [] => ⟨s, [], .ok []⟩
  | name :: rest =>
    (pruneHolder opts s name).andThen fun s pruned =>
      (pruneAll opts s rest).andThen fun s later => ⟨s, [], .ok (pruned ++ later)⟩

/-- The layouts whose holders may be stale: those without views, and those that some file that
disappeared was a variant of and that the run did not see. -/
def staleNames (catalog : Catalog) (empty : List String) (removed : List Path) : List String :=
  empty ++ ((removed.filterMap LayoutFile.ofPath?).map (·.layoutName)).filter fun name =>
    !catalog.contains name

/-- The layouts that files outside the run still back. -/
def backedNames (files candidates : PathSet) (removed : List Path) : List String :=
  (files.toList.filter fun p => !candidates.contains p && !removed.any p.same).map (·.stem)

/-- Delete the stale holders that no layout file outside the run backs. -/
def prune (opts : CompileOptions) (s : σ) (candidates : PathSet) (catalog : Catalog)
    (empty : List String) (removed : List Path) : Progress σ (List Path) :=
  let stale := staleNames catalog empty removed
  if !opts.pruneStale || stale.isEmpty then ⟨s, [], .ok []⟩
  else
    match allLayoutFiles s opts.resDirs with
    | .error e => ⟨s, [], .error e⟩
    | .ok files =>
      let backed := backedNames files candidates removed
      pruneAll opts s (stale.filter fun name => !backed.contains name)

/-! ### Runs -/

/-- Compile some layout files after others disappeared. -/
def run (opts : CompileOptions) (mode : CompileMode) (candidates : PathSet) (removed : List Path)
    (s : σ) : Progress σ Report :=
  if candidates.isEmpty && !(opts.pruneStale && !removed.isEmpty) then ⟨s, [], .ok .nothing⟩
  else
    (Progress.mk s [.started mode candidates.size] (.ok ())).andThen fun s _ =>
    (readAll opts s candidates.toList).andThen fun s layouts =>
    let catalog := Catalog.ofList layouts
    let empty := (catalog.layouts.filter (·.isEmpty)).map (·.name)
    (Progress.mk s (empty.map .empty) (.ok ())).andThen fun s _ =>
    (writeAll opts s (catalog.layouts.filter fun l => !l.isEmpty)).andThen fun s outputs =>
    (prune opts s candidates catalog empty removed).andThen fun s pruned =>
    let written := outputs.filterMap (·.written?)
    let unchanged := outputs.filterMap (·.unchanged?)
    ⟨s, [.completed written.length unchanged.length empty.length pruned.length],
      .ok ⟨candidates.size, written, unchanged, empty, pruned⟩⟩

/-- Compile every layout file of some resource roots. -/
def compile (opts : CompileOptions) (roots : List Path) (s : σ) : Progress σ Report :=
  match allLayoutFiles s roots with
  | .error e => ⟨s, [], .error e⟩
  | .ok candidates => run opts .full candidates [] s

/-- Compile the layouts that some changed and some removed files affect. -/
def compileIncremental (opts : CompileOptions) (changed removed : List Path) (s : σ) :
    Progress σ Report :=
  match affectedFiles s changed removed with
  | .error e => ⟨s, [], .error e⟩
  | .ok candidates => run opts .incremental candidates removed s

end ViewHolder
