import ViewHolder.Markup.Attribute

/-!
# Namespace scopes

A tag may bind qualifiers to namespaces.  A binding holds for the tag itself and for all that the
element contains, and the latest binding of a qualifier counts.  A name is split at its first
colon, and a name without a colon is in no namespace.

## Main definitions

* `Markup.splitName` : the qualifier and the local part of a name.
* `Markup.Scope` : the bindings at a place, latest first.
* `Markup.Scope.declare` : a scope extended by the declarations of a tag.
* `Markup.Scope.resolve?` : the namespace of a qualifier.
-/

namespace ViewHolder.Markup

/-- The qualifier of a name, if there is one, and its local part. -/
def splitName (name : List Char) : Option (List Char) × List Char :=
  match name.dropWhile (· != ':') with
  | [] => (none, name)
  | _ :: localPart => (some (name.takeWhile (· != ':')), localPart)

/-- The namespace that the qualifier `xml` stands for. -/
def xmlNamespace : List Char := "http://www.w3.org/XML/1998/namespace".toList

/-- The namespace that the qualifier `xmlns` stands for. -/
def xmlnsNamespace : List Char := "http://www.w3.org/2000/xmlns/".toList

/-- The qualifier that an attribute key declares, if it declares one. -/
def declaredQualifier? (key : List Char) : Option (List Char) :=
  match splitName key with
  | (some q, localPart) => if q = "xmlns".toList then some localPart else none
  | (none, _) => none

/-- The bindings at a place, latest first. -/
abbrev Scope := List (List Char × List Char)

namespace Scope

/-- A scope with one more binding.  The qualifiers `xml` and `xmlns` and their namespaces are
reserved. -/
def bindName (s : Scope) (qualifier value : List Char) : Except BindingFault Scope :=
  let fault := .error ⟨String.ofList qualifier, String.ofList value⟩
  if qualifier = "xml".toList then if value = xmlNamespace then .ok s else fault
  else if qualifier = "xmlns".toList then fault
  else if value = xmlNamespace ∨ value = xmlnsNamespace then fault
  else .ok ((qualifier, value) :: s)

/-- A scope extended by the declarations among some attributes. -/
def declare (s : Scope) : List Attribute → Except BindingFault Scope
  | [] => .ok s
  | a :: rest =>
    match declaredQualifier? a.key with
    | none => s.declare rest
    | some q =>
      match s.bindName q a.value with
      | .error f => .error f
      | .ok inner => inner.declare rest

/-- The namespace that a qualifier is bound to.  The empty qualifier is never bound, and an empty
namespace takes a binding back. -/
def resolve? (s : Scope) (qualifier : List Char) : Option (List Char) :=
  if qualifier.isEmpty then none
  else
    match s.lookup qualifier with
    | some value => if value.isEmpty then none else some value
    | none => none

end Scope

end ViewHolder.Markup
