import ViewHolder.Toml.Statement

/-!
# TOML documents

The statements of a text build the table of the whole document.  The entries after a header go to
the table that the header names; that table is put into the document when the next header comes or
the text ends.

## Main definitions

* `Toml.Part` : a header with the entries after it.
* `Toml.Draft`, `Toml.Draft.add` : a document under construction.
* `Toml.document?` : the document of a text.
-/

namespace ViewHolder.Toml

/-- A header with the entries after it. -/
structure Part where
  /-- Whether the header names one more table of an array. -/
  double : Bool
  /-- The parts of the name before the last dot. -/
  path : List Key
  /-- The last part of the name. -/
  key : Key
  /-- The part of the text from the header to the last value after it. -/
  span : Span
  /-- The members of the table. -/
  members : Members
  deriving Inhabited, Repr

namespace Part

/-- The table of a part. -/
def node (p : Part) : Node := ⟨some p.span, .table .header p.members⟩

/-- The part of the text from the first one of some values to the last one. -/
def extent? (items : List Node) : Option Span :=
  match items.head?.bind (·.span), items.getLast?.bind (·.span) with
  | some first, some last => some (first.upTo last)
  | _, _ => none

/-- Put the table of a part into the table that its path leads to. -/
def place (p : Part) (_ : Origin) (members : Members) : Option (Unit × Members) :=
  match p.double, members.find? p.key.text with
  | false, none => some ((), members.set p.key p.node)
  | true, some ⟨_, .tables items⟩ =>
    let items := items ++ [p.node]
    some ((), members.set p.key ⟨extent? items, .tables items⟩)
  | _, _ => none

/-- Put the table of a part into the document. -/
def close (p : Part) (root : Members) : Option Members :=
  (changeAt false p.place p.path .header root).map (·.2)

end Part

/-! ### Headers -/

/-- What a header finds in the table that its path leads to: a table that only headers of tables in
it have named is taken out, so that its members become members of the new table. -/
def takeImplied (key : Key) (_ : Origin) (members : Members) : Option (Members × Members) :=
  match members.find? key.text with
  | none => some ([], members)
  | some ⟨_, .table .implied inner⟩ => some (inner, members.erase key.text)
  | some _ => none

/-- What a header in double brackets finds: tables of the same name, or nothing, in which case
their place is taken now. -/
def reserveTables (key : Key) (_ : Origin) (members : Members) : Option (Members × Members) :=
  match members.find? key.text with
  | none => some ([], members.set key ⟨none, .tables []⟩)
  | some ⟨_, .tables _⟩ => some ([], members)
  | some _ => none

/-- The members that the table of a header has from the start, and the document without them. -/
def beginPart (double : Bool) (path : List Key) (key : Key) (root : Members) :
    Option (Members × Members) :=
  changeAt false (if double then reserveTables key else takeImplied key) path .header root

/-! ### Drafts -/

/-- A document under construction. -/
inductive Draft where
  /-- No header has come yet. -/
  | plain (root : Members)
  /-- The entries go to the table of a part. -/
  | within (root : Members) (part : Part)
  deriving Inhabited, Repr

namespace Draft

/-- The document, when nothing comes after it. -/
def finish : Draft → Option Members
  | plain root => some root
  | within root part => part.close root

/-- Add a statement. -/
def add : Draft → Statement → Option Draft
  | plain root, .entry path key node => (addValue path key node root).map plain
  | within root part, .entry path key node =>
    (addValue path key node part.members).map fun members =>
      let span := (node.span.map part.span.upTo).getD part.span
      within root { part with span, members }
  | draft, .header double path key span =>
    match draft.finish with
    | none => none
    | some root =>
      (beginPart double path key root).map fun (members, root) =>
        within root ⟨double, path, key, span, members⟩

end Draft

/-- The document that some statements build. -/
def build (statements : List Statement) : Option Members :=
  match statements.foldlM Draft.add (.plain []) with
  | some draft => draft.finish
  | none => none

/-- The document of a text. -/
def document? (text : String) : Option Members :=
  match statements? text.toList with
  | some statements => build statements
  | none => none

end ViewHolder.Toml
