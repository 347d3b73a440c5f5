/-!
# Edit distance

How many elements have to be inserted, deleted or exchanged to make one list out of another.  The
distances between the beginnings of the lists are worked out row by row: a row has the distances
from one beginning of the first list to all beginnings of the second one.

## Main definitions

* `Text.nextRow` : the row for a beginning that is one element longer.
* `Text.distance` : the distance between two lists.
* `Text.byteDistance` : the distance between the bytes of two texts.
-/

namespace ViewHolder.Text

variable {α : Type} [DecidableEq α]

/-- The entries of a row after its first one.  `x` is the new element of the first list, `left` the
entry before, and the last argument is the row above, from the entry before on. -/
def rowFrom (x : α) (left : Nat) : List α → List Nat → List Nat
  | y :: ys, corner :: above :: row =>
    let entry := min (min (above + 1) (left + 1)) (corner + if x = y then 0 else 1)
    entry :: rowFrom x entry ys (above :: row)
  | _, _ => []

/-- The row for a beginning of the first list that is longer by the element `x`. -/
def nextRow (ys : List α) (row : List Nat) (x : α) : List Nat :=
  let first := row.headD 0 + 1
  first :: rowFrom x first ys row

/-- The number of elements that have to be inserted, deleted or exchanged. -/
def distance (xs ys : List α) : Nat :=
  (xs.foldl (nextRow ys) (List.range (ys.length + 1))).getLastD 0

/-- An empty list is as far from a list as that list is long. -/
theorem distance_nil (ys : List α) : distance [] ys = ys.length := by
  simp [distance, List.range_succ]

/-- The distance between the bytes of two texts. -/
def byteDistance (s t : String) : Nat :=
  distance (s.toList.flatMap String.utf8EncodeChar) (t.toList.flatMap String.utf8EncodeChar)

end ViewHolder.Text
