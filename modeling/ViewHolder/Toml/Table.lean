import ViewHolder.Toml.Value

/-!
# Tables under construction

A dotted key and a header lead through tables to the table that they add to.  Tables on the way
that are not there yet come about; a value that is no table ends the way, and so does a table that
may not be added to.

## Main definitions

* `Toml.Members.find?`, `Toml.Members.set`, `Toml.Members.erase` : the members of a table.
* `Toml.changeAt` : changing the table at the end of a path.
* `Toml.addValue` : adding a value under a dotted key.
-/

namespace ViewHolder.Toml

/-! ### Members -/

namespace Members

/-- The value of a key. -/
def find? (key : String) (members : Members) : Option Node :=
  (List.find? (fun m => m.1.text == key) members).map (·.2)

/-- Give a key a value; a new key goes to the end. -/
def set (key : Key) (node : Node) : Members → Members
  | [] => [(key, node)]
  | (k, n) :: rest =>
    if k.text = key.text then (k, node) :: rest else (k, n) :: set key node rest

/-- A key has the value that it was given last. -/
theorem find?_set_self (key : Key) (node : Node) (members : Members) :
    (set key node members).find? key.text = some node := by
  induction members with
  | nil => simp [set, find?]
  | cons m rest ih =>
    obtain ⟨k, n⟩ := m
    by_cases h : k.text = key.text
    · simp [set, find?, h]
    · simp only [find?] at ih
      simp [set, find?, h, ih]

/-- Remove a key. -/
def erase (key : String) (members : Members) : Members :=
  members.filter fun m => m.1.text != key

end Members

/-! ### Paths through tables -/

/-- Whether a path may lead through a table.  The dots of a key may not lead into a table with a
header of its own, and nothing may lead into a table between braces. -/
def Origin.admits (dots : Bool) : Origin → Bool
  | header => !dots
  | implied => true
  | dotted => true
  | braces => false

/-- How a table comes about that a path leads through. -/
def Origin.onWay (dots : Bool) : Origin := if dots then dotted else implied

/-- Change the table at the end of a path, given how it came about and its members.  The path comes
from a dotted key if `dots` is set, and from a header if not. -/
def changeAt {α : Type} (dots : Bool) (change : Origin → Members → Option (α × Members)) :
    List Key → Origin → Members → Option (α × Members)
  | [], origin, members => change origin members
  | key :: path, _, members =>
    match Members.find? key.text members with
    | none =>
      (changeAt dots change path (.onWay dots) []).map fun (a, inner) =>
        (a, Members.set key ⟨none, .table (.onWay dots) inner⟩ members)
    | some ⟨span, .table origin inner⟩ =>
      if !origin.admits dots then none
      else
        (changeAt dots change path origin inner).map fun (a, inner) =>
          (a, Members.set key ⟨span, .table origin inner⟩ members)
    | some ⟨span, .tables items⟩ =>
      match items.getLast? with
      | some ⟨last, .table origin inner⟩ =>
        (changeAt dots change path origin inner).map fun (a, inner) =>
          (a, Members.set key ⟨span, .tables (items.dropLast ++ [⟨last, .table origin inner⟩])⟩
            members)
      | _ => none
    | some _ => none

/-- Add a value to a table that a path of the given length leads to.  Dots may add to a table only
if the table is there for dots, and a key has one value. -/
def addMember (dotted : Bool) (key : Key) (node : Node) (origin : Origin) (members : Members) :
    Option (Unit × Members) :=
  if dotted != (origin == .dotted) || (members.find? key.text).isSome then none
  else some ((), members ++ [(key, node)])

/-- Add a value under a dotted key, the last part of which is `key`, to a table. -/
def addValue (path : List Key) (key : Key) (node : Node) (members : Members) : Option Members :=
  (changeAt true (addMember (!path.isEmpty) key node) path .header members).map (·.2)

end ViewHolder.Toml
