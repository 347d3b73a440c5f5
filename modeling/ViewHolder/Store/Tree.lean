import ViewHolder.Store.Basic

/-!
# File trees in memory

A tree knows its files by location: the steps of a path without any `.`.  A directory is there as
soon as something lies below it, or once it has been created.  Listing and writing can be denied
for directories, and every change that succeeds is logged.

## Main definitions

* `Location`, `Path.location` : where a path leads in a tree.
* `Tree` : a tree of files with its denials and its log.
* `Tree.read`, `Tree.list`, `Tree.write`, `Tree.remove`, `Tree.createDir` : its operations.
-/

namespace ViewHolder

/-- A place in a tree: the steps of a path without any `.`. -/
abbrev Location := List Step

/-- Where a path leads in a tree. -/
def Path.location (p : Path) : Location := p.steps.filter (· != .here)

/-- The plain spelling of a location. -/
def Location.path (l : Location) : Path := Path.ofSteps l

/-- A change of a tree. -/
inductive Change where
  /-- A file was written. -/
  | write (at_ : Location)
  /-- A directory was created. -/
  | createDir (at_ : Location)
  /-- A file was removed. -/
  | remove (at_ : Location)
  deriving DecidableEq, Inhabited, Repr

/-- A tree of files in memory. -/
structure Tree where
  /-- The files and their texts. -/
  files : List (Location × String)
  /-- The directories that were created. -/
  dirs : List Location
  /-- The directories that may not be listed. -/
  unlistable : List Location
  /-- The directories at and below which nothing may be changed. -/
  frozen : List Location
  /-- The changes so far, the first one first. -/
  log : List Change
  deriving DecidableEq, Inhabited, Repr

namespace Tree

/-- The tree without files. -/
def empty : Tree := ⟨[], [], [], [], []⟩

/-! ### Files by location -/

/-- Put a text at a location of a list of files. -/
def put (l : Location) (text : String) : List (Location × String) → List (Location × String)
  | [] => [(l, text)]
  | (k, t) :: rest => if k = l then (l, text) :: rest else (k, t) :: put l text rest

/-- The text at a location. -/
def textAt? (t : Tree) (l : Location) : Option String := t.files.lookup l

/-- Whether there is a file at a location. -/
def hasFile (t : Tree) (l : Location) : Bool := (t.textAt? l).isSome

/-- Put a file into a tree without logging it. -/
def seed (t : Tree) (p : Path) (text : String) : Tree :=
  { t with files := put p.location text t.files }

/-- The tree of some files; the last text of a place counts. -/
def ofFiles (files : List (Path × String)) : Tree :=
  files.foldl (fun t f => t.seed f.1 f.2) empty

/-- Deny the listing of a directory. -/
def denyList (t : Tree) (dir : Path) : Tree :=
  { t with unlistable := dir.location :: t.unlistable }

/-- Deny changes at and below a directory. -/
def denyWrite (t : Tree) (dir : Path) : Tree :=
  { t with frozen := dir.location :: t.frozen }

/-- The files and their texts, ordered by location. -/
def sortedFiles (t : Tree) : List (Location × String) :=
  t.files.mergeSort fun a b => (Path.compareSteps a.1 b.1).isLE

/-- Whether there is a directory at a location. -/
def hasDir (t : Tree) (l : Location) : Bool :=
  l.isEmpty || t.dirs.any l.isPrefixOf || t.files.any fun f => f.1 != l && l.isPrefixOf f.1

/-- Whether changes at a location are denied. -/
def isFrozen (t : Tree) (l : Location) : Bool := t.frozen.any fun dir => dir.isPrefixOf l

/-! ### Reading and listing -/

/-- The text of a file. -/
def read (t : Tree) (p : Path) : Except StoreError String :=
  match t.textAt? p.location with
  | some text => .ok text
  | none => .error (.notFound p)

/-- The name below `dir` on the way to a location, and whether that name is a directory. -/
def childOf? (dir : Location) (isFile : Bool) (l : Location) : Option (String × Bool) :=
  if dir.isPrefixOf l then
    match l.drop dir.length with
    | [] => none
    | first :: rest => some (first.text, !isFile || !rest.isEmpty)
  else none

/-- Add a name to an ascending list of names; a name is a directory if it ever was one. -/
def insertChild (child : String × Bool) : List (String × Bool) → List (String × Bool)
  | [] => [child]
  | c :: rest =>
    if child.1 = c.1 then (c.1, c.2 || child.2) :: rest
    else if child.1 < c.1 then child :: c :: rest
    else c :: insertChild child rest

/-- The names below a location in ascending order, and which of them are directories. -/
def children (t : Tree) (dir : Location) : List (String × Bool) :=
  let members :=
    t.files.filterMap (fun f => childOf? dir true f.1) ++ t.dirs.filterMap (childOf? dir false)
  members.foldr insertChild []

/-- The members of a directory, in ascending order of their names. -/
def list (t : Tree) (dir : Path) : Except StoreError (List Entry) :=
  let l := dir.location
  if t.unlistable.contains l then .error (.denied dir)
  else if t.hasFile l then .error (.notADirectory dir)
  else if !t.hasDir l then .error (.notFound dir)
  else .ok ((t.children l).map fun c => ⟨dir.join ⟨c.1⟩, c.2⟩)

/-! ### Changes -/

/-- Put a text into a file. -/
def write (t : Tree) (p : Path) (text : String) : Except StoreError Unit × Tree :=
  let l := p.location
  if t.isFrozen l then (.error (.denied l.path), t)
  else (.ok (), { t with files := put l text t.files, log := t.log ++ [.write l] })

/-- Remove a file. -/
def remove (t : Tree) (p : Path) : Except StoreError Unit × Tree :=
  let l := p.location
  if t.isFrozen l then (.error (.denied l.path), t)
  else if !t.hasFile l then (.error (.notFound p), t)
  else
    (.ok (), { t with files := t.files.filter (·.1 != l), log := t.log ++ [.remove l] })

/-- Create a directory; the directories above it need no entry of their own. -/
def createDir (t : Tree) (p : Path) : Except StoreError Unit × Tree :=
  let l := p.location
  if t.hasFile l then (.error (.notADirectory p), t)
  else if t.isFrozen l then (.error (.denied l.path), t)
  else
    (.ok (), { t with
      dirs := if t.dirs.contains l then t.dirs else l :: t.dirs
      log := t.log ++ [.createDir l] })

instance : Store Tree where
  read := read
  isFile t p := t.hasFile p.location
  isDir t p := t.hasDir p.location
  list := list
  write := write
  remove := remove
  createDir := createDir

end Tree

end ViewHolder
