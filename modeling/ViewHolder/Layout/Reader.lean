import ViewHolder.Layout.View
import ViewHolder.Markup.Document

/-!
# Reading a layout

The views of a layout are the elements of its document that carry an id, unless they opt out.
Elements in which something is wrong end the reading, as do faults of the markup; the first of
them in document order counts.

## Main definitions

* `LayoutFault`, `LayoutFault.message`, `LayoutFault.causes` : why a document is no layout.
* `ReadingOptions` : which elements are taken and how their types are completed.
* `Marks`, `Marks.view?` : what an element says about itself, and the view that it is.
* `Layout.read` : the layout of a document.
-/

namespace ViewHolder

/-- Why a document is no layout.  Offsets count bytes. -/
inductive LayoutFault where
  /-- The markup is not well-formed. -/
  | markup (offset : Nat) (cause : Markup.Fault)
  /-- The attributes of an element cannot be read. -/
  | attributes (offset : Nat) (cause : Markup.AttributeFault)
  deriving DecidableEq, Inhabited, Repr

namespace LayoutFault

/-- The text of a fault. -/
def message : LayoutFault → String
  | markup n cause => "malformed XML at byte " ++ toString n ++ ": " ++ cause.message
  | attributes n cause => "malformed attribute at byte " ++ toString n ++ ": " ++ cause.message

/-- The texts of what lies behind a fault. -/
def causes : LayoutFault → List String
  | markup _ cause => cause.message :: cause.causes
  | attributes _ cause => [cause.message]

end LayoutFault

/-- The widget package of a project that names none. -/
def defaultWidgetPackage : String := "android.widget"

/-- Which elements are taken and how their types are completed. -/
structure ReadingOptions where
  /-- Whether an element with an id is taken without asking for it. -/
  defaultInclude : Bool := true
  /-- The package of the widgets whose names have no package. -/
  widgetPackage : String := defaultWidgetPackage
  deriving DecidableEq, Inhabited, Repr

/-- The namespace of the attributes of the framework. -/
def frameworkNamespace : String := "http://schemas.android.com/apk/res/android"

/-- The namespace of the attributes of applications. -/
def applicationNamespace : String := "http://schemas.android.com/apk/res-auto"

/-! ### What an element says about itself -/

/-- What an element says about itself. -/
structure Marks where
  /-- Its id as it was written. -/
  rawId : Option String := none
  /-- Whether it opts out. -/
  ignored : Bool := false
  /-- Whether it opts in. -/
  included : Bool := false
  /-- The accessor name that it asks for. -/
  accessor : Option String := none
  deriving DecidableEq, Inhabited, Repr

/-- The kinds of attributes that say something about an element. -/
inductive Mark where
  | id
  | ignore
  | inclusion
  | accessor
  deriving DecidableEq, Inhabited, Repr

/-- The kind of an attribute, if it says something about its element. -/
def Mark.ofAttribute? (a : Markup.ResolvedAttribute) : Option Mark :=
  let name := String.ofList a.name
  match a.space.map String.ofList with
  | none => none
  | some space =>
    if space = frameworkNamespace then if name = "id" then some id else none
    else if space = applicationNamespace then
      if name = "holdr_ignore" then some ignore
      else if name = "holdr_include" then some inclusion
      else if name = "holdr_field_name" then some accessor
      else none
    else none

/-- Take note of an attribute; a later one of the same kind replaces an earlier one. -/
def Marks.note (m : Marks) (kind : Mark) (value : String) : Marks :=
  match kind with
  | .id => { m with rawId := some value }
  | .ignore => { m with ignored := value == "true" }
  | .inclusion => { m with included := value == "true" }
  | .accessor => { m with accessor := some value }

/-- What some attributes say, beginning with what is known already. -/
def Marks.ofAttributes (m : Marks) :
    List Markup.ResolvedAttribute → Except Markup.ReferenceFault Marks
  | [] => .ok m
  | a :: rest =>
    match Mark.ofAttribute? a with
    | none => m.ofAttributes rest
    | some kind =>
      match Markup.expand a.value with
      | .error f => .error f
      | .ok value => (m.note kind (String.ofList value)).ofAttributes rest

/-! ### Views -/

/-- The type of an element: a name with a dot stands for itself, any other name is a widget. -/
def elementType (opts : ReadingOptions) (name : List Char) : String :=
  let localName := (Markup.splitName name).2
  if localName.contains '.' then String.ofList localName
  else opts.widgetPackage ++ "." ++ String.ofList localName

/-- An id without the part up to the first slash. -/
def stripId (rawId : String) : String :=
  match rawId.toList.dropWhile (· != '/') with
  | [] => rawId
  | _ :: id => String.ofList id

/-- The view that an element of a given type is, if it is one: it needs an id, must not opt out,
and unless elements are taken by default it must opt in or ask for an accessor name. -/
def Marks.view? (opts : ReadingOptions) (type : String) (m : Marks) : Option View :=
  match m.rawId with
  | none => none
  | some rawId =>
    if m.ignored then none
    else if !opts.defaultInclude && !m.included && m.accessor.isNone then none
    else some ⟨type, stripId rawId, Text.startsWith rawId "@android", m.accessor⟩

/-- The view that an element is, if it is one. -/
def viewOf (opts : ReadingOptions) (e : Markup.Element) : Except LayoutFault (Option View) :=
  match Marks.ofAttributes {} e.attributes with
  | .error f => .error (.markup e.stop (.badReference f))
  | .ok m =>
    match e.defect with
    | some f => .error (.attributes e.stop f)
    | none => .ok (m.view? opts (elementType opts e.name))

/-! ### Layouts -/

/-- Add the views of some elements to a layout. -/
def Layout.pushElements (opts : ReadingOptions) (l : Layout) :
    List Markup.Element → Except LayoutFault Layout
  | [] => .ok l
  | e :: rest =>
    match viewOf opts e with
    | .error f => .error f
    | .ok none => l.pushElements opts rest
    | .ok (some v) => (l.push v).pushElements opts rest

/-- The layout of a document.  Of two elements with one id the first is its view. -/
def Layout.read (opts : ReadingOptions) (name source : String) : Except LayoutFault Layout :=
  let document := Markup.readDocument source
  match Layout.pushElements opts ⟨name, []⟩ document.elements with
  | .error f => .error f
  | .ok l =>
    match document.fault with
    | some (f, offset) => .error (.markup offset f)
    | none => .ok l

end ViewHolder
