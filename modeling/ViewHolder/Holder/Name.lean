import ViewHolder.Layout.View
import ViewHolder.Text.Blank
import ViewHolder.Text.Upper

/-!
# Names of holders and accessors

A layout name or a view id is a sequence of words between separators, and the names of the
generated class are made from these words.  An accessor name is always an identifier, and the
accessor names of one holder are pairwise different.

## Main definitions

* `Holder.className` : the class name of a layout.
* `Holder.identifier` : a text turned into an identifier that is no reserved word.
* `Holder.accessorName` : the accessor name that a view asks for.
* `Holder.accessorNames` : the accessor names of the views of one holder.
-/

namespace ViewHolder.Holder

/-! ### Words -/

/-- Whether a character separates the words of a name. -/
def isWordSeparator (c : Char) : Bool :=
  c == '_' || c == '-' || c == '.' || Text.isBlank c

/-- The words of a name. -/
def words (name : String) : List (List Char) := Text.splitBy isWordSeparator name.toList

/-- Put a `_` in front of a text that starts with a digit. -/
def guardDigit (cs : List Char) : List Char :=
  match cs with
  | c :: _ => if c.isDigit then '_' :: cs else cs
  | [] => []

/-- The class name of a layout: its words, capitalized, and `Holder`. -/
def className (layoutName : String) : String :=
  String.ofList (guardDigit ((words layoutName).flatMap Text.capitalize)) ++ "Holder"

/-! ### Accessors -/

/-- The words that are no identifiers in the generated language. -/
def reservedWords : List String :=
  ["abstract", "assert", "boolean", "break", "byte", "case", "catch", "char", "class", "const",
    "continue", "default", "do", "double", "else", "enum", "extends", "false", "final", "finally",
    "float", "for", "goto", "if", "implements", "import", "instanceof", "int", "interface", "long",
    "native", "new", "null", "package", "private", "protected", "public", "return", "short",
    "static", "strictfp", "super", "switch", "synchronized", "this", "throw", "throws",
    "transient", "true", "try", "void", "volatile", "while"]

/-- Whether a character may stand in an identifier. -/
def isIdentifierChar (c : Char) : Bool := c.isAlphanum || c == '_' || c == '$'

/-- A text turned into an identifier: characters that may not stand in one become `_`, an empty
text or a leading digit gets a `_` in front, and a reserved word gets a `_` at the end. -/
def identifier (name : List Char) : String :=
  let body := name.map fun c => if isIdentifierChar c then c else '_'
  let text := String.ofList (if body.isEmpty then ['_'] else guardDigit body)
  if reservedWords.contains text then text ++ "_" else text

/-- The words of an id joined, all but the first capitalized. -/
def camelCase (id : String) : List Char :=
  match words id with
  | [] => []
  | w :: ws => w ++ ws.flatMap Text.capitalize

/-- The accessor name that a view asks for: its own choice, or one made from its id. -/
def accessorName (v : View) : String :=
  identifier (match v.accessor with
    | some name => name.toList
    | none => camelCase v.id)

/-- A name followed by a number. -/
def numbered (base : String) (n : Nat) : String := base ++ toString n

/-- The name itself if it is free, else the name followed by the smallest number from two on
that makes it free.  As many numbers as there are names in use are enough. -/
def fresh (used : List String) (base : String) : String :=
  if used.contains base then
    (((List.range used.length).map fun k => numbered base (k + 2)).find?
      fun name => !used.contains name).getD (numbered base (used.length + 2))
  else base

/-- The accessor names of some views when other names are in use already. -/
def accessorNamesFrom (used : List String) : List View → List String
  | [] => []
  | v :: vs =>
    let name := fresh used (accessorName v)
    name :: accessorNamesFrom (name :: used) vs

/-- The accessor names of the views of one holder, in order. -/
def accessorNames (views : List View) : List String := accessorNamesFrom [] views

end ViewHolder.Holder
