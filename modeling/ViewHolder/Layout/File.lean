import ViewHolder.Path.Basic

/-!
# Layout files

A resource root holds variant directories (`layout`, `layout-land`, ...), and a layout file lies
directly in one of them.  Files of one name in different variant directories of one root are
variants of one layout, whose name is the file name without its extension.

## Main definitions

* `LayoutFile`, `LayoutFile.ofPath?` : a path seen as a layout file.
* `LayoutFile.inVariant` : the same file in another variant directory.
* `LayoutFile.isCandidate` : whether a path can be a layout file that is not hidden.
-/

namespace ViewHolder

/-- Whether a directory of this name holds layout variants. -/
def isVariantName (name : String) : Bool := Text.startsWith name "layout"

/-- Whether a file of this name is hidden. -/
def isHiddenName (name : String) : Bool := Text.startsWith name "."

/-- A file that lies directly in a variant directory. -/
structure LayoutFile where
  /-- The file as it was spelled. -/
  path : Path
  /-- The name of the file. -/
  fileName : String
  /-- The name of the variant directory. -/
  variant : String
  /-- The resource root, above the variant directory. -/
  root : Path
  deriving DecidableEq, Inhabited, Repr

namespace LayoutFile

/-- Read a path as a layout file; this fails when its directory is no variant directory. -/
def ofPath? (p : Path) : Option LayoutFile := do
  let fileName ← p.fileName?
  let dir ← p.parent?
  let variant ← dir.fileName?
  guard (isVariantName variant)
  return ⟨p, fileName, variant, dir.parent?.getD ⟨""⟩⟩

/-- The directory to list for other variants: the root, or the current directory when the path
starts at the variant directory. -/
def listingRoot (f : LayoutFile) : Path := if f.root.isEmpty then ⟨"."⟩ else f.root

/-- The name of the layout that the file is a variant of. -/
def layoutName (f : LayoutFile) : String := f.path.stem

/-- Whether a directory name is that of another variant directory of the same root. -/
def isSiblingVariant (f : LayoutFile) (dirName : String) : Bool :=
  isVariantName dirName && dirName != f.variant

/-- The path of the same file in another variant directory of its root. -/
def inVariant (f : LayoutFile) (dirName : String) : Path :=
  (f.root.join ⟨dirName⟩).join ⟨f.fileName⟩

/-- Whether a path can be a layout file that is not hidden. -/
def isCandidate (p : Path) : Bool :=
  match ofPath? p with
  | some f => !isHiddenName f.fileName
  | none => false

end LayoutFile

end ViewHolder
