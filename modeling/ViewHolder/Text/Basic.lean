/-!
# Pieces of texts

Cutting lists of characters at separators and at their ends.

## Main definitions

* `Text.startsWith` : whether a text starts with another one.
* `Text.pieces`, `Text.splitBy` : the pieces between separators, with and without the empty ones.
* `Text.dropEndWhile` : dropping characters at the end.
* `Text.byteSize`, `Text.cutBytes` : measuring and cutting by bytes.
* `Text.lines` : the lines of a text.
* `Text.ticked` : a text between backticks.
-/

namespace ViewHolder.Text

/-- Whether a text starts with another one. -/
def startsWith (s start : String) : Bool := start.toList.isPrefixOf s.toList

/-- A text between backticks. -/
def ticked (s : String) : String := "`" ++ s ++ "`"

/-- Drop the characters at the end of a list that satisfy `p`. -/
def dropEndWhile (p : Char → Bool) (cs : List Char) : List Char :=
  (cs.reverse.dropWhile p).reverse

/-- The pieces of a list between its separators, empty pieces included. -/
def pieces (sep : Char → Bool) : List Char → List (List Char)
  | [] => [[]]
  | c :: cs =>
    if sep c then [] :: pieces sep cs
    else
      match pieces sep cs with
      | [] => [[c]]
      | p :: ps => (c :: p) :: ps

/-- There is always a piece. -/
theorem pieces_ne_nil (sep : Char → Bool) (cs : List Char) : pieces sep cs ≠ [] := by
  cases cs with
  | nil => simp [pieces]
  | cons c cs =>
    rw [pieces]
    split
    · simp
    · split <;> simp

/-- The non-empty pieces of a list between its separators. -/
def splitBy (sep : Char → Bool) (cs : List Char) : List (List Char) :=
  (pieces sep cs).filter fun p => !p.isEmpty

/-! ### Bytes -/

/-- The number of bytes of some characters. -/
def byteSize (cs : List Char) : Nat := cs.foldl (fun n c => n + c.utf8Size) 0

/-- The characters that start within the first `n` bytes, and those after them. -/
def cutBytes (n : Nat) : List Char → List Char × List Char
  | [] => ([], [])
  | c :: cs =>
    if n = 0 then ([], c :: cs)
    else
      let cut := cutBytes (n - c.utf8Size) cs
      (c :: cut.1, cut.2)

/-- Nothing is lost when a text is cut. -/
theorem cutBytes_append (n : Nat) (cs : List Char) :
    (cutBytes n cs).1 ++ (cutBytes n cs).2 = cs := by
  induction cs generalizing n with
  | nil => rfl
  | cons c cs ih =>
    rw [cutBytes]
    split
    · rfl
    · exact congrArg (c :: ·) (ih _)

/-! ### Lines -/

/-- Whether a character ends a line. -/
def isLineEnd (c : Char) : Bool := c == '\n'

/-- A line without the carriage return at its end. -/
def dropReturn (line : List Char) : List Char :=
  if line.getLast? = some '\r' then line.dropLast else line

/-- The lines of a text; a line end at the end of the text begins no further line. -/
def lines (cs : List Char) : List (List Char) :=
  let all := pieces isLineEnd cs
  (if all.getLast? = some [] then all.dropLast else all).map dropReturn

end ViewHolder.Text
