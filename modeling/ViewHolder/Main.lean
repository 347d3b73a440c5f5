import ViewHolder.Command.Session

/-!
# The program

A command works on a copy of the files that it may look at.  When it is done, the files that differ
are written back.  A watch looks at the files again and again, and hands over what has changed once
no more changes come.

## Main definitions

* `Invocation.lookups` : the paths that an invocation may look at.
* `copyPath`, `writeBack` : copying files, and writing back what differs.
* `main` : the program.
-/

namespace ViewHolder

/-! ### What a command may look at -/

/-- How much is copied of what a path leads to. -/
inductive Extent where
  /-- A file, or the directory without its members. -/
  | itself
  /-- A directory with its files. -/
  | files
  /-- A directory with its layout directories and their files. -/
  | variants
  deriving DecidableEq, Inhabited, Repr

/-- The paths at which settings are looked for. -/
def Invocation.settingsLookups (i : Invocation) (env : Environment) : List (Path × Extent) :=
  (i.config.toList ++ candidateFiles).map (·, .itself)
where
  /-- The files that need not be named. -/
  candidateFiles : List Path := ⟨projectFileName⟩ :: Settings.candidateFiles env none

/-- The paths that a compile run looks at. -/
def CompileOptions.lookups (o : CompileOptions) : List (Path × Extent) :=
  let holders := ((holderPath o "x").parent?.map (·, Extent.files)).toList
  holders ++ o.resDirs.map (·, .variants)

/-- The paths that a compile run after some changes looks at in addition. -/
def changeLookups (changes : List Path) : List (Path × Extent) :=
  changes.map (·, .itself)
    ++ (changes.filterMap LayoutFile.ofPath?).map fun f => (f.listingRoot, .variants)

/-- The settings of the command line. -/
def Command.overrides? : Command → Option Overrides
  | compile o => some o
  | incremental _ _ o => some o
  | watch o => some o
  | className _ => none

/-- The changes that the command line tells of. -/
def Command.changes : Command → List Path
  | incremental changed removed _ => changed ++ removed
  | _ => []

/-- The paths that an invocation may look at, given a disk with the files of the settings. -/
def Invocation.lookups (i : Invocation) (d : Disk) (env : Environment) : List (Path × Extent) :=
  match i.command.overrides?, i.settings d env with
  | some o, .ok (s, _) =>
    match (s.overriddenBy o).compileOptions? with
    | some opts => opts.lookups ++ changeLookups i.command.changes
    | none => []
  | _, _ => []

/-! ### Copying files -/

/-- The text of a place. -/
def placeText (place : List String) : String := "/" ++ "/".intercalate place

/-- Copy a single file or directory. -/
def copyNode (d : Disk) (place : List String) : IO Disk := do
  let here ← IO.currentDir
  let file := here / placeText place
  if ← file.isDir then return d.put place .dir
  if ← file.pathExists then return d.put place (.file (← IO.FS.readBinFile file))
  return d

/-- The names of the members of a directory. -/
def memberNames (place : List String) : IO (List String) := do
  let here ← IO.currentDir
  let entries ← (here / placeText place).readDir
  return entries.toList.map (·.fileName)

/-- Copy the members of a directory; of their members, those of the layout directories are copied if
`variants` is set. -/
def copyMembers (variants : Bool) (d : Disk) (place : List String) : IO Disk := do
  let mut d := d
  for name in ← memberNames place do
    let member := place ++ [name]
    d ← copyNode d member
    if variants && isVariantName name && (d.nodeAt? member matches some .dir) then
      for name in ← memberNames member do
        d ← copyNode d (member ++ [name])
  return d

/-- Copy what a path leads to, with the directories on the way. -/
def copyPath (d : Disk) (p : Path) (extent : Extent) : IO Disk := do
  let mut d := d
  let mut place := d.origin p
  for segment in Disk.segments p do
    if segment = ['.', '.'] then place := place.dropLast
    else if !Disk.isIdle segment then
      place := place ++ [String.ofList segment]
      d ← copyNode d place
  if extent != .itself && (d.nodeAt? place matches some .dir) then
    d ← copyMembers (extent == .variants) d place
  return d

/-- Copy what some paths lead to. -/
def copyPaths (d : Disk) (lookups : List (Path × Extent)) : IO Disk :=
  lookups.foldlM (fun d (p, extent) => copyPath d p extent) d

/-! ### Writing back -/

/-- The bytes of the file at a place. -/
def Disk.bytesAt? (d : Disk) (place : List String) : Option ByteArray :=
  match d.nodeAt? place with
  | some (.file bytes) => some bytes
  | _ => none

/-- Whether a file is the same on two disks. -/
def sameBytes (a b : Disk) (place : List String) : Bool :=
  (a.bytesAt? place).map (·.toList) == (b.bytesAt? place).map (·.toList)

/-- Make the files what they are on a disk, given what they were. -/
def writeBack (old new : Disk) : IO Unit := do
  for (place, node) in new.nodes do
    match node with
    | .dir =>
      if (old.nodeAt? place).isNone then IO.FS.createDirAll (placeText place)
    | .file bytes =>
      if !sameBytes old new place then IO.FS.writeBinFile (placeText place) bytes
  for (place, _) in old.nodes do
    if (new.nodeAt? place).isNone then IO.FS.removeFile (placeText place)

/-! ### Lines and variables -/

/-- Write some lines, so that they can be read at once. -/
def writeLines (lines : List Line) : IO Unit := do
  for line in lines do
    match line with
    | .out s => IO.println s
    | .err s => IO.eprintln s
  (← IO.getStdout).flush

/-- The names of the variables that are looked at. -/
def variableNames : List String :=
  ["HOME", "XDG_CONFIG_HOME", "HOLDR_PACKAGE", "HOLDR_OUTPUT_DIR", "HOLDR_DEFAULT_INCLUDE",
    "HOLDR_JOBS", "HOLDR_PRUNE_STALE", "HOLDR_VERBOSITY"]

/-- The environment of the program. -/
def readEnvironment : IO Environment := do
  let mut vars := []
  for name in variableNames do
    if let some value ← IO.getEnv name then vars := (name, value) :: vars
  return .ofList vars

/-- A disk with nothing but the working directory. -/
def workingDisk : IO Disk := do
  let here ← IO.currentDir
  return Disk.withDirs (here.toString.splitOn "/" |>.filter (!·.isEmpty)) []

/-! ### Watching -/

/-- The time between two looks at the files, in milliseconds. -/
def watchPause : UInt32 := 50

/-- The layout files of some resource roots on a disk, with their places. -/
def layoutFilesIn (roots : List Path) (d : Disk) : List (Path × List String) :=
  match allLayoutFiles d roots with
  | .ok files => files.toList.filterMap fun p => (d.resolve p).toOption.map (p, ·)
  | .error _ => []

/-- The layout files that differ between two disks. -/
def changedFiles (roots : List Path) (old new : Disk) : List Path :=
  let files := layoutFilesIn roots old ++ layoutFilesIn roots new
  (files.filter fun (_, place) => !sameBytes old new place).map (·.1)

/-- Go on with a watch. -/
partial def keepWatching (w : Watch) (seen : Disk) (pending : Pending) : IO Unit := do
  IO.sleep watchPause
  let now ← IO.monoMsNow
  let current ← copyPaths (← workingDisk) w.options.lookups
  let pending := (changedFiles w.roots seen current).foldl (·.add now) pending
  if pending.isSettled now then
    let (paths, pending) := pending.take
    let (lines, d) := w.batch paths current
    writeBack current d
    writeLines lines
    keepWatching w d pending
  else keepWatching w current pending

/-- Carry out what the arguments ask for. -/
def carryOut (args : List String) : IO UInt32 := do
  let env ← readEnvironment
  let d ← workingDisk
  let d ← match Invocation.ofArguments args with
    | .ok i => do
      let d ← copyPaths d (i.settingsLookups env)
      copyPaths d (i.lookups d env)
    | .error _ => pure d
  let r := runArguments args d env
  writeBack d r.disk
  writeLines r.lines
  match r.next with
  | .exit status => return status.toUInt32
  | .watching w =>
    keepWatching w r.disk .none
    return 0

end ViewHolder

/-- Carry out the command that the arguments name. -/
def main (args : List String) : IO UInt32 := ViewHolder.carryOut args
