import ViewHolder.Path.Basic

/-!
# Stores of files

A store answers reads and listings and carries out writes, removals and the creation of
directories.  A failing operation names the path that it failed on.  An operation that changes a
store gives back the store also when it fails, since a failure may leave a part of the work done.

## Main definitions

* `StoreError`, `StoreError.message`, `StoreError.causes` : why an operation failed.
* `Entry`, `Entry.compare` : a member of a directory listing.
* `Store` : the operations of a store.
* `Store.listIfPresent` : a listing in which a missing directory is empty.
-/

namespace ViewHolder

/-- Why an operation on a store failed. -/
inductive StoreError where
  /-- There is nothing at the path. -/
  | notFound (path : Path)
  /-- The path may not be used in this way. -/
  | denied (path : Path)
  /-- The path holds something that is no directory. -/
  | notADirectory (path : Path)
  /-- Any other failure, with the reason that the system gives. -/
  | failure (path : Path) (reason : String)
  deriving DecidableEq, Inhabited, Repr

/-- What the system reports about a failed operation. -/
inductive Condition where
  /-- Nothing is there. -/
  | missing
  /-- Permission is denied. -/
  | forbidden
  /-- Any other condition, with its text. -/
  | other (reason : String)
  deriving DecidableEq, Inhabited, Repr

namespace StoreError

/-- The error for a condition that was met at a path. -/
def ofCondition (path : Path) : Condition → StoreError
  | .missing => notFound path
  | .forbidden => denied path
  | .other reason => failure path reason

/-- Whether the error says that nothing is there. -/
def isNotFound : StoreError → Bool
  | notFound _ => true
  | _ => false

/-- The text of an error. -/
def message : StoreError → String
  | notFound p => "not found: " ++ p.text
  | denied p => "permission denied: " ++ p.text
  | notADirectory p => "not a directory: " ++ p.text
  | failure p reason => "I/O error on " ++ p.text ++ ": " ++ reason

/-- The texts of what lies behind an error. -/
def causes : StoreError → List String
  | failure _ reason => [reason]
  | _ => []

end StoreError

/-- A member of a directory. -/
structure Entry where
  /-- The path of the member. -/
  path : Path
  /-- Whether it is a directory. -/
  isDir : Bool
  deriving DecidableEq, Inhabited, Repr

namespace Entry

/-- The name of an entry, or the empty text if its path does not end in a name. -/
def name (e : Entry) : String := e.path.fileName?.getD ""

/-- Entries are ordered by path, files before directories. -/
def compare (a b : Entry) : Ordering :=
  (a.path.compare b.path).then (Ord.compare a.isDir b.isDir)

/-- A list of entries in ascending order; equal entries keep their places. -/
def sort (l : List Entry) : List Entry := l.mergeSort fun a b => (a.compare b).isLE

end Entry

/-- The operations of a store of files with states `σ`. -/
class Store (σ : Type) where
  /-- The text of a file. -/
  read : σ → Path → Except StoreError String
  /-- Whether there is a file at a path. -/
  isFile : σ → Path → Bool
  /-- Whether there is a directory at a path. -/
  isDir : σ → Path → Bool
  /-- The members of a directory, in ascending order. -/
  list : σ → Path → Except StoreError (List Entry)
  /-- Put a text into a file. -/
  write : σ → Path → String → Except StoreError Unit × σ
  /-- Remove a file. -/
  remove : σ → Path → Except StoreError Unit × σ
  /-- Create a directory and the directories above it. -/
  createDir : σ → Path → Except StoreError Unit × σ

/-- The members of a directory that satisfy `p`; a missing directory has none. -/
def Store.listIfPresent {σ : Type} [Store σ] (s : σ) (dir : Path) (p : Entry → Bool) :
    Except StoreError (List Entry) :=
  match Store.list s dir with
  | .ok entries => .ok (entries.filter p)
  | .error e => if e.isNotFound then .ok [] else .error e

end ViewHolder
