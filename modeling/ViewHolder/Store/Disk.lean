import ViewHolder.Store.Basic
import ViewHolder.Text.Utf8

/-!
# Disks

A disk holds directories and files of bytes.  A path is followed segment by segment from the
working directory, so `..` leads out of a directory only if the directory is there, and a path
that ends in a slash leads to nothing but a directory.

## Main definitions

* `Disk`, `Disk.Node` : a disk with its working directory.
* `DiskFault` : why the disk refuses an operation.
* `Disk.resolve`, `Disk.target` : where a path leads, and where it would put something new.
* `Disk.makeDirs` : creating a directory and what is missing above it.
* `Disk.readText`, `Disk.list`, `Disk.write`, `Disk.remove`, `Disk.createDir` : the operations.
-/

namespace ViewHolder

/-- Why the disk refuses an operation. -/
inductive DiskFault where
  | missing
  | notADirectory
  | isADirectory
  | alreadyThere
  | busy
  | nameTooLong
  | nulInName
  | badText
  deriving DecidableEq, Inhabited, Repr

namespace DiskFault

/-- The text of a refusal. -/
def text : DiskFault → String
  | missing => "No such file or directory (os error 2)"
  | notADirectory => "Not a directory (os error 20)"
  | isADirectory => "Is a directory (os error 21)"
  | alreadyThere => "File exists (os error 17)"
  | busy => "Device or resource busy (os error 16)"
  | nameTooLong => "File name too long (os error 36)"
  | nulInName => "file name contained an unexpected NUL byte"
  | badText => "stream did not contain valid UTF-8"

/-- The condition that a refusal is reported as. -/
def condition : DiskFault → Condition
  | missing => .missing
  | f => .other f.text

end DiskFault

/-- What a disk holds at a place. -/
inductive Disk.Node where
  /-- A directory. -/
  | dir
  /-- A file. -/
  | file (bytes : ByteArray)
  deriving Inhabited

/-- A disk with its working directory.  A place is the list of the names on the way to it. -/
structure Disk where
  /-- The working directory. -/
  cwd : List String
  /-- What the disk holds below its root. -/
  nodes : List (List String × Disk.Node)
  deriving Inhabited

namespace Disk

/-! ### Places -/

/-- What is at a place; the root is always a directory. -/
def nodeAt? (d : Disk) (place : List String) : Option Node :=
  if place.isEmpty then some .dir else d.nodes.lookup place

/-- Put a node at a place of a list of nodes. -/
def putNode (place : List String) (node : Node) :
    List (List String × Node) → List (List String × Node)
  | [] => [(place, node)]
  | (p, n) :: rest =>
    if p = place then (place, node) :: rest else (p, n) :: putNode place node rest

/-- A disk with a node at a place. -/
def put (d : Disk) (place : List String) (node : Node) : Disk :=
  { d with nodes := putNode place node d.nodes }

/-- A disk without the node at a place. -/
def drop (d : Disk) (place : List String) : Disk :=
  { d with nodes := d.nodes.filter fun n => n.1 != place }

/-- The largest number of bytes of a name. -/
def nameLimit : Nat := 255

/-- Whether a segment of a path leads nowhere else. -/
def isIdle (segment : List Char) : Bool := segment == [] || segment == ['.']

/-- Follow one segment of a path. -/
def follow (d : Disk) (place : List String) (segment : List Char) :
    Except DiskFault (List String) :=
  match d.nodeAt? place with
  | none => .error .missing
  | some (.file _) => .error .notADirectory
  | some .dir =>
    if isIdle segment then .ok place
    else if segment = ['.', '.'] then .ok place.dropLast
    else
      let name := String.ofList segment
      if nameLimit < name.utf8ByteSize then .error .nameTooLong
      else if (d.nodeAt? (place ++ [name])).isSome then .ok (place ++ [name])
      else .error .missing

/-- Follow some segments of a path. -/
def followAll (d : Disk) (place : List String) : List (List Char) → Except DiskFault (List String)
  | [] => .ok place
  | s :: rest =>
    match d.follow place s with
    | .ok next => d.followAll next rest
    | .error f => .error f

/-- The segments of a spelling. -/
def segments (p : Path) : List (List Char) := Text.pieces Path.isSeparator p.text.toList

/-- Where a path starts. -/
def origin (d : Disk) (p : Path) : List String := if p.isAbsolute then [] else d.cwd

/-- A refusal of the spelling of a path. -/
def badSpelling? (p : Path) : Option DiskFault :=
  if p.text.toList.contains '\x00' then some .nulInName
  else if p.isEmpty then some .missing
  else none

/-- Where a path leads. -/
def resolve (d : Disk) (p : Path) : Except DiskFault (List String) :=
  match badSpelling? p with
  | some f => .error f
  | none => d.followAll (d.origin p) (segments p)

/-- What a path leads to. -/
def nodeOf (d : Disk) (p : Path) : Except DiskFault Node :=
  match d.resolve p with
  | .error f => .error f
  | .ok place =>
    match d.nodeAt? place with
    | some node => .ok node
    | none => .error .missing

/-- Whether a path leads to a directory. -/
def isDir (d : Disk) (p : Path) : Bool := d.nodeOf p matches .ok .dir

/-- Whether a path leads to a file. -/
def isFile (d : Disk) (p : Path) : Bool := d.nodeOf p matches .ok (.file _)

/-- The last segment of a path as the name of something new. -/
inductive Target where
  /-- A name in a directory; `slashed` if slashes follow it. -/
  | entry (place : List String) (name : String) (slashed : Bool)
  /-- No name: the root, or a step that leads to a directory. -/
  | noName
  deriving DecidableEq, Inhabited, Repr

/-- Where a path would put something new: all segments but the last have to lead to a
directory. -/
def target (d : Disk) (p : Path) : Except DiskFault Target :=
  match badSpelling? p with
  | some f => .error f
  | none =>
    let trimmed := (segments p).reverse.dropWhile (·.isEmpty)
    match trimmed with
    | [] => .ok .noName
    | last :: before =>
      match d.followAll (d.origin p) before.reverse with
      | .error f => .error f
      | .ok place =>
        match d.nodeAt? place with
        | none => .error .missing
        | some (.file _) => .error .notADirectory
        | some .dir =>
          if last = ['.'] || last = ['.', '.'] then .ok .noName
          else if nameLimit < (String.ofList last).utf8ByteSize then .error .nameTooLong
          else .ok (.entry place (String.ofList last) (trimmed.length != (segments p).length))

/-! ### Directories -/

/-- Create one directory in a directory that is there. -/
def makeDir (d : Disk) (p : Path) : Except DiskFault Unit × Disk :=
  match d.target p with
  | .error f => (.error f, d)
  | .ok .noName => (.error .alreadyThere, d)
  | .ok (.entry place name _) =>
    if (d.nodeAt? (place ++ [name])).isSome then (.error .alreadyThere, d)
    else (.ok (), d.put (place ++ [name]) .dir)

/-- Create a directory and what is missing above it.  The number bounds how far up that is. -/
def makeDirsWithin : Nat → Disk → Path → Except DiskFault Unit × Disk
  | 0, d, _ => (.error .missing, d)
  | n + 1, d, p =>
    if p.steps.isEmpty then (.ok (), d)
    else
      match d.makeDir p with
      | (.ok (), d') => (.ok (), d')
      | (.error .missing, d') =>
        match p.parent? with
        | none => (.error .missing, d')
        | some parent =>
          match makeDirsWithin n d' parent with
          | (.error f, d'') => (.error f, d'')
          | (.ok (), d'') =>
            match d''.makeDir p with
            | (.ok (), d''') => (.ok (), d''')
            | (.error f, d''') => (if d'''.isDir p then .ok () else .error f, d''')
      | (.error f, d') => (if d'.isDir p then .ok () else .error f, d')

/-- Create a directory and what is missing above it; every parent is spelled shorter. -/
def makeDirs (d : Disk) (p : Path) : Except DiskFault Unit × Disk :=
  makeDirsWithin (p.text.toList.length + 1) d p

/-! ### Operations -/

/-- The text of the file that a path leads to. -/
def readText (d : Disk) (p : Path) : Except DiskFault String :=
  match d.nodeOf p with
  | .error f => .error f
  | .ok .dir => .error .isADirectory
  | .ok (.file bytes) =>
    match Text.decode? bytes with
    | some text => .ok text
    | none => .error .badText

/-- An error for a refusal that was met at a path. -/
def errorAt (p : Path) (f : DiskFault) : StoreError := .ofCondition p f.condition

/-- The names in a directory, and which of them are directories. -/
def childrenOf (d : Disk) (place : List String) : List (String × Bool) :=
  d.nodes.filterMap fun n =>
    if n.1.length = place.length + 1 && place.isPrefixOf n.1 then
      some (n.1.getLastD "", n.2 matches .dir)
    else none

/-- The members of the directory that a path leads to, in ascending order. -/
def list (d : Disk) (p : Path) : Except StoreError (List Entry) :=
  match d.resolve p with
  | .error f => .error (errorAt p f)
  | .ok place =>
    match d.nodeAt? place with
    | some .dir =>
      .ok (Entry.sort ((d.childrenOf place).map fun c => ⟨p.join ⟨c.1⟩, c.2⟩))
    | some (.file _) => .error (.notADirectory p)
    | none => .error (.notFound p)

/-- The directory that has to be there before something is put at a path. -/
def dirOf (p : Path) : Path :=
  match p.parent? with
  | some parent => if parent.isEmpty then ⟨"."⟩ else parent
  | none => ⟨"."⟩

/-- Put bytes at a path whose directory is there. -/
def place (d : Disk) (p : Path) (bytes : ByteArray) : Except DiskFault Unit × Disk :=
  match d.target p with
  | .error f => (.error f, d)
  | .ok .noName => (.error .busy, d)
  | .ok (.entry dir name slashed) =>
    if slashed then (.error .notADirectory, d)
    else
      match d.nodeAt? (dir ++ [name]) with
      | some .dir => (.error .isADirectory, d)
      | _ => (.ok (), d.put (dir ++ [name]) (.file bytes))

/-- Put a text into a file, after creating the directory of the file. -/
def write (d : Disk) (p : Path) (text : String) : Except StoreError Unit × Disk :=
  match d.makeDirs (dirOf p) with
  | (.error f, d') => (.error (errorAt (dirOf p) f), d')
  | (.ok (), d') =>
    match d'.place p text.toUTF8 with
    | (.error f, d'') => (.error (errorAt p f), d'')
    | (.ok (), d'') => (.ok (), d'')

/-- Remove the file at a path. -/
def unlink (d : Disk) (p : Path) : Except DiskFault Unit × Disk :=
  match d.target p with
  | .error f => (.error f, d)
  | .ok .noName => (.error .isADirectory, d)
  | .ok (.entry dir name slashed) =>
    match d.nodeAt? (dir ++ [name]) with
    | none => (.error .missing, d)
    | some .dir => (.error .isADirectory, d)
    | some (.file _) =>
      if slashed then (.error .notADirectory, d) else (.ok (), d.drop (dir ++ [name]))

/-- The error of an operation at a path, if it was refused. -/
def reportAt (p : Path) (r : Except DiskFault Unit × Disk) : Except StoreError Unit × Disk :=
  match r with
  | (.error f, d) => (.error (errorAt p f), d)
  | (.ok (), d) => (.ok (), d)

instance : Store Disk where
  read d p :=
    match d.readText p with
    | .ok text => .ok text
    | .error f => .error (errorAt p f)
  isFile := isFile
  isDir := isDir
  list := list
  write := write
  remove d p := reportAt p (d.unlink p)
  createDir d p := reportAt p (d.makeDirs p)

/-! ### Setting up and looking at a disk -/

/-- A disk that holds nothing but some directories and what is above them. -/
def withDirs (cwd : List String) (dirs : List (List String)) : Disk :=
  let places := (cwd :: dirs).flatMap fun dir =>
    (List.range dir.length).map fun n => dir.take (n + 1)
  places.foldl (fun d p => d.put p .dir) ⟨cwd, []⟩

/-- The files at and below a place with their bytes, by the names below it, in ascending
order. -/
def filesBelow (d : Disk) (place : List String) : List (List String × ByteArray) :=
  (d.nodes.filterMap fun n =>
    match n.2 with
    | .file bytes =>
      if place.isPrefixOf n.1 then some (n.1.drop place.length, bytes) else none
    | .dir => none).mergeSort fun a b => compare a.1 b.1 |>.isLE

end Disk

end ViewHolder
