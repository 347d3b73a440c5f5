import ViewHolder.Compile.Error
import ViewHolder.Layout.File
import ViewHolder.Path.Set

/-!
# Affected layout files

All variants of a layout end up in one holder, so a file that changed or disappeared affects the
files of the same name in the other variant directories of its resource root.

## Main definitions

* `allLayoutFiles` : the layout files of some resource roots.
* `siblingVariants` : the other variants of a layout file.
* `affectedFiles` : the files to read again after some files changed and others disappeared.
-/

namespace ViewHolder

/-- The results of a fallible step for the members of a list, one after the other; the first
failure counts. -/
def gather {ε α β : Type} (step : α → Except ε (List β)) : List α → Except ε (List β)
  | [] => .ok []
  | a :: rest =>
    match step a with
    | .error e => .error e
    | .ok bs =>
      match gather step rest with
      | .error e => .error e
      | .ok more => .ok (bs ++ more)

variable {σ : Type} [Store σ]

/-- The members of a directory that satisfy `p`; a missing directory has none. -/
def listMembers (s : σ) (dir : Path) (p : Entry → Bool) : Except CompileError (List Entry) :=
  match Store.listIfPresent s dir p with
  | .ok entries => .ok entries
  | .error e => .error (.listing dir e)

/-- The files of a variant directory that are not hidden. -/
def filesOfVariant (s : σ) (dir : Path) : Except CompileError (List Path) :=
  match listMembers s dir fun e => !e.isDir && !isHiddenName e.name with
  | .ok entries => .ok (entries.map (·.path))
  | .error e => .error e

/-- The layout files of a resource root, by variant directory. -/
def filesOfRoot (s : σ) (root : Path) : Except CompileError (List Path) :=
  match listMembers s root fun e => e.isDir && isVariantName e.name with
  | .ok variants => gather (fun v => filesOfVariant s v.path) variants
  | .error e => .error e

/-- The layout files of some resource roots, in order. -/
def allLayoutFiles (s : σ) (roots : List Path) : Except CompileError PathSet :=
  match gather (filesOfRoot s) roots with
  | .ok files => .ok (PathSet.ofList files)
  | .error e => .error e

/-- The files of the same name that exist in the other variant directories of the same root. -/
def siblingVariants (s : σ) (f : LayoutFile) : Except CompileError (List Path) :=
  match listMembers s f.listingRoot fun e => e.isDir && f.isSiblingVariant e.name with
  | .ok dirs => .ok ((dirs.map fun d => f.inVariant d.name).filter (Store.isFile s))
  | .error e => .error e

/-- The files to read again: the layout files that changed and the other variants of those that
changed or disappeared, less the ones that disappeared. -/
def affectedFiles (s : σ) (changed removed : List Path) : Except CompileError PathSet :=
  let direct := changed.filter fun p => (LayoutFile.ofPath? p).isSome
  match gather (siblingVariants s) ((changed ++ removed).filterMap LayoutFile.ofPath?) with
  | .ok siblings => .ok (removed.foldl PathSet.erase (PathSet.ofList (direct ++ siblings)))
  | .error e => .error e

end ViewHolder
