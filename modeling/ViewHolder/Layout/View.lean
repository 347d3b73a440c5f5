/-!
# Views and layouts

A view is an element of a layout that gets an accessor, and a layout is a named list of views in
document order.  Variants of one layout are merged by id, and the first view of an id wins.

## Main definitions

* `View`, `Layout` : an element with an accessor, and a named list of them.
* `Layout.push`, `Layout.merge` : adding views whose ids are new.
* `Catalog`, `Catalog.add` : the layouts of a run by name, in the order in which they were seen.
-/

namespace ViewHolder

/-- An element of a layout that gets an accessor. -/
structure View where
  /-- The class of the widget. -/
  type : String
  /-- The identifier, without the part that says where it is declared. -/
  id : String
  /-- Whether the framework declares the identifier. -/
  isFramework : Bool
  /-- The accessor name that the layout asks for, if any. -/
  accessor : Option String
  deriving DecidableEq, Inhabited, Repr

/-- A named layout and its views in document order. -/
structure Layout where
  /-- The name shared by all variants. -/
  name : String
  /-- The views in document order. -/
  views : List View
  deriving DecidableEq, Inhabited, Repr

namespace Layout

/-- Whether the layout has no view. -/
def isEmpty (l : Layout) : Bool := l.views.isEmpty

/-- The first view with the given id. -/
def find? (l : Layout) (id : String) : Option View := l.views.find? (·.id == id)

/-- Add a view at the end unless its id is taken. -/
def push (l : Layout) (v : View) : Layout :=
  if (l.find? v.id).isSome then l else { l with views := l.views ++ [v] }

/-- Add the views of another variant, in order, each unless its id is taken. -/
def merge (l other : Layout) : Layout := other.views.foldl push l

end Layout

/-- Layouts by name, in the order in which the names were first seen. -/
structure Catalog where
  /-- The layouts. -/
  layouts : List Layout
  deriving DecidableEq, Inhabited, Repr

namespace Catalog

/-- The catalog without layouts. -/
def empty : Catalog := ⟨[]⟩

/-- The layout of a name. -/
def find? (c : Catalog) (name : String) : Option Layout := c.layouts.find? (·.name == name)

/-- Whether there is a layout of a name. -/
def contains (c : Catalog) (name : String) : Bool := (c.find? name).isSome

/-- Merge a variant into the first layout of its name in a list, or put it at the end. -/
def addTo (l : Layout) : List Layout → List Layout
  | [] => [l]
  | m :: rest => if m.name = l.name then m.merge l :: rest else m :: addTo l rest

/-- Add a variant: a new name keeps the layout as it is, a known one gets the new ids. -/
def add (c : Catalog) (l : Layout) : Catalog := ⟨addTo l c.layouts⟩

/-- The catalog of a list of variants. -/
def ofList (ls : List Layout) : Catalog := ls.foldl add empty

end Catalog

end ViewHolder
