import ViewHolder.Text.Basic

/-!
# Paths

A path is kept as it was spelled and read as a list of steps.  Empty segments and `.` segments
are no steps, except for a `.` that opens a relative path; `..` is a step like any name.  Two
spellings name the same place when their steps agree, and paths are ordered by their steps.

## Main definitions

* `Path`, `Step`, `Path.steps` : a spelled path and its view as a list of steps.
* `Path.same` : equality of paths, by steps.
* `Path.join`, `Path.parent?`, `Path.fileName?`, `Path.stem` : building and taking apart.
* `Path.compare` : the order by steps.
* `Path.ofSteps` : the plain spelling of a list of steps.
-/

namespace ViewHolder

/-- One step of a path. -/
inductive Step where
  /-- The root of the file tree. -/
  | root
  /-- The current directory, at the start of a relative path. -/
  | here
  /-- The directory above. -/
  | up
  /-- A named entry. -/
  | name (text : String)
  deriving DecidableEq, Inhabited, Repr

namespace Step

/-- The text of a step. -/
def text : Step → String
  | root => "/"
  | here => "."
  | up => ".."
  | name s => s

/-- The step that a segment between two separators stands for, if any. -/
def ofSegment? : List Char → Option Step
  | [] => none
  | ['.'] => none
  | ['.', '.'] => some up
  | s => some (name (String.ofList s))

/-- The place of a step among the kinds of steps. -/
def rank : Step → Nat
  | root => 0
  | here => 1
  | up => 2
  | name _ => 3

/-- Steps are ordered by kind, names among themselves by their characters. -/
def compare : Step → Step → Ordering
  | name a, name b => Ord.compare a b
  | a, b => Ord.compare a.rank b.rank

end Step

/-- A path as it was spelled. -/
structure Path where
  /-- The spelling. -/
  text : String
  deriving DecidableEq, Inhabited, Repr

namespace Path

/-- Whether a character separates the segments of a path. -/
def isSeparator (c : Char) : Bool := c == '/'

/-! ### Steps -/

/-- What stands before the body of a path: the root, a leading `.`, or nothing. -/
inductive Lead where
  | root
  | here
  | none
  deriving DecidableEq, Repr

/-- The steps that a lead contributes. -/
def Lead.steps : Lead → List Step
  | root => [.root]
  | here => [.here]
  | none => []

/-- The lead of a spelling and the segments of its body. -/
def splitLead (cs : List Char) : Lead × List (List Char) :=
  match cs with
  | '/' :: rest => (.root, Text.pieces isSeparator rest)
  | _ =>
    match Text.pieces isSeparator cs with
    | ['.'] :: rest => (.here, rest)
    | segments => (.none, segments)

/-- The steps of a path. -/
def steps (p : Path) : List Step :=
  let (lead, body) := splitLead p.text.toList
  lead.steps ++ body.filterMap Step.ofSegment?

/-- Whether two spellings name the same place. -/
def same (p q : Path) : Bool := p.steps == q.steps

/-- Whether the path starts at the root. -/
def isAbsolute (p : Path) : Bool := p.text.toList.head? == some '/'

/-- Whether the spelling is empty. -/
def isEmpty (p : Path) : Bool := p.text.toList.isEmpty

/-! ### Order -/

/-- Lists of steps in lexicographic order, a shorter list before its extensions. -/
def compareSteps : List Step → List Step → Ordering
  | [], [] => .eq
  | [], _ :: _ => .lt
  | _ :: _, [] => .gt
  | a :: as, b :: bs => (a.compare b).then (compareSteps as bs)

/-- Paths are ordered by their steps. -/
def compare (p q : Path) : Ordering := compareSteps p.steps q.steps

/-! ### Building and taking apart -/

/-- The spelling of `q` seen from `p`: an absolute `q` stands for itself. -/
def join (p q : Path) : Path :=
  if q.isAbsolute then q
  else if p.isEmpty || p.text.toList.getLast? == some '/' then ⟨p.text ++ q.text⟩
  else ⟨p.text ++ "/" ++ q.text⟩

/-- The last step of a path, if it is a name. -/
def fileName? (p : Path) : Option String :=
  match p.steps.getLast? with
  | some (.name s) => some s
  | _ => none

/-- Drop the segments at the end that are no steps. -/
def dropIdleEnd (segments : List (List Char)) : List (List Char) :=
  (segments.reverse.dropWhile fun s => (Step.ofSegment? s).isNone).reverse

/-- The spelling of a lead and a body. -/
def spell (lead : Lead) (body : List (List Char)) : Path :=
  let tail := ['/'].intercalate body
  match lead with
  | .root => ⟨String.ofList ('/' :: tail)⟩
  | .here => if body.isEmpty then ⟨"."⟩ else ⟨String.ofList ('.' :: '/' :: tail)⟩
  | .none => ⟨String.ofList tail⟩

/-- The spelling up to the last step; the root and the empty path have no parent. -/
def parent? (p : Path) : Option Path :=
  let (lead, body) := splitLead p.text.toList
  match dropIdleEnd body with
  | [] => if lead = .here then some ⟨""⟩ else none
  | segments => some (spell lead (dropIdleEnd segments.dropLast))

/-- A name without its last extension; a dot that opens the name starts no extension. -/
def stemOfName (name : List Char) : List Char :=
  let rest := name.reverse.dropWhile (· != '.')
  match rest with
  | [] => name
  | [_] => name
  | _ :: front => front.reverse

/-- The file name of a path without its last extension, or nothing. -/
def stem (p : Path) : String :=
  match p.fileName? with
  | some s => String.ofList (stemOfName s.toList)
  | none => ""

/-- The plain spelling of a list of steps. -/
def ofSteps (l : List Step) : Path :=
  l.foldl (fun p s => p.join ⟨s.text⟩) ⟨""⟩

end Path

end ViewHolder
