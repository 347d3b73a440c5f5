import ViewHolder.Markup.Scope
import ViewHolder.Markup.Token

/-!
# Elements of a document

The start tags of a text, in document order, with the namespaces of their attributes.  Every end
tag has to match the element that was opened last; elements that are still open at the end of the
text are no fault.

## Main definitions

* `Markup.Element` : a start tag with resolved attributes.
* `Markup.Document`, `Markup.readDocument` : the elements of a text up to the first fault.
-/

namespace ViewHolder.Markup

/-- An attribute whose name has been resolved. -/
structure ResolvedAttribute where
  /-- The namespace of the name, if it is in one. -/
  space : Option (List Char)
  /-- The local part of the name. -/
  name : List Char
  /-- The text between the quotes. -/
  value : List Char
  deriving DecidableEq, Inhabited, Repr

/-- A start tag in its place. -/
structure Element where
  /-- The name as it was written. -/
  name : List Char
  /-- The attributes up to the first fault. -/
  attributes : List ResolvedAttribute
  /-- What is wrong after these attributes, if anything. -/
  defect : Option AttributeFault
  /-- The offset after the tag. -/
  stop : Nat
  deriving DecidableEq, Inhabited, Repr

/-- The elements of a text up to the first fault in its tags, and that fault with its offset. -/
structure Document where
  /-- The elements in document order. -/
  elements : List Element
  /-- The fault that ends them, if any. -/
  fault : Option (Fault × Nat)
  deriving DecidableEq, Inhabited, Repr

/-- A document with an element in front. -/
def Document.cons (e : Element) (d : Document) : Document :=
  { d with elements := e :: d.elements }

/-- An attribute with its name resolved. -/
def Attribute.resolve (scope : Scope) (a : Attribute) : ResolvedAttribute :=
  match splitName a.key with
  | (some q, localPart) => ⟨scope.resolve? q, localPart, a.value⟩
  | (none, localPart) => ⟨none, localPart, a.value⟩

/-- The name at the start of the content of a tag. -/
def tagName (content : List Char) : List Char := content.takeWhile fun c => !isSpace c

/-- The attributes in the content of a tag up to the first fault, and that fault. -/
def tagAttributes (distinct : Bool) (content : List Char) :
    List Attribute × Option AttributeFault :=
  readAttributes distinct (Text.byteSize (tagName content)) (content.dropWhile fun c => !isSpace c)

/-- The element of a start tag. -/
def elementOf (scope : Scope) (content : List Char) (stop : Nat) : Element :=
  let (attributes, defect) := tagAttributes true content
  ⟨tagName content, attributes.map (·.resolve scope), defect, stop⟩

/-- The elements of some tags.  The names of the open elements stand in `opened`, the innermost
first, each with the scope around it. -/
def documentFrom (scope : Scope) (opened : List (List Char × Scope))
    (fault : Option (Fault × Nat)) : List (Token × Nat) → Document
  | [] => ⟨[], fault⟩
  | (.startTag content closed, stop) :: rest =>
    match scope.declare (tagAttributes false content).1 with
    | .error f => ⟨[], some (.badBinding f, stop)⟩
    | .ok inner =>
      (if closed then documentFrom scope opened fault rest
        else documentFrom inner ((tagName content, scope) :: opened) fault rest).cons
          (elementOf inner content stop)
  | (.endTag name, stop) :: rest =>
    match opened with
    | [] => ⟨[], some (.badShape (.strayEnd (String.ofList name)), stop)⟩
    | (expected, outer) :: others =>
      if name = expected then documentFrom outer others fault rest
      else
        ⟨[], some (.badShape (.mismatchedEnd (String.ofList expected) (String.ofList name)), stop)⟩

/-- The elements of a text; a byte order mark at its start is no part of it. -/
def readDocument (source : String) : Document :=
  let cs := match source.toList with
    | '\uFEFF' :: rest => rest
    | cs => cs
  let s := scan cs
  documentFrom [] [] s.fault s.tokens

end ViewHolder.Markup
