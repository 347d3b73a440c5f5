import ViewHolder.Path.Basic

/-!
# Sets of paths

A set of paths keeps its members in the order in which they arrived and in their first spelling.
Membership is decided by steps, so two spellings of one place are one member.

## Main definitions

* `PathSet` : an ordered set of paths.
* `PathSet.insert`, `PathSet.erase`, `PathSet.extend`, `PathSet.ofList` : its operations.
* `PathSet.sameAs` : equality of sets, without regard to order.
* `PathSet.Call`, `PathSet.Answer`, `PathSet.call` : the uses of a set and what they give back.
-/

namespace ViewHolder

/-- An ordered set of paths, each place at most once. -/
structure PathSet where
  /-- The members, first arrival first. -/
  toList : List Path
  /-- No place is named twice. -/
  distinct : toList.Pairwise fun p q => p.steps ≠ q.steps

namespace PathSet

/-- The set without members. -/
def empty : PathSet := ⟨[], .nil⟩

instance : Inhabited PathSet := ⟨empty⟩

/-- Whether some member names the same place as `p`. -/
def contains (s : PathSet) (p : Path) : Bool := s.toList.any p.same

/-- The number of members. -/
def size (s : PathSet) : Nat := s.toList.length

/-- Whether there is no member. -/
def isEmpty (s : PathSet) : Bool := s.toList.isEmpty

theorem contains_iff {s : PathSet} {p : Path} :
    s.contains p = true ↔ ∃ q ∈ s.toList, p.steps = q.steps := by
  simp [contains, Path.same]

/-- Add a path at the end unless its place is already a member. -/
def insert (s : PathSet) (p : Path) : PathSet :=
  if h : s.contains p = true then s
  else
    ⟨s.toList ++ [p], by
      refine List.pairwise_append.2 ⟨s.distinct, by simp, ?_⟩
      intro q hq r hr hqr
      obtain rfl : r = p := by simpa using hr
      exact h (contains_iff.2 ⟨q, hq, hqr.symm⟩)⟩

/-- Remove the member that names the same place as `p`; the others keep their order. -/
def erase (s : PathSet) (p : Path) : PathSet :=
  ⟨s.toList.filter fun q => !p.same q, s.distinct.filter _⟩

/-- Add the paths of a list one after the other. -/
def extend (s : PathSet) (ps : List Path) : PathSet := ps.foldl insert s

/-- The set of the paths of a list. -/
def ofList (ps : List Path) : PathSet := empty.extend ps

/-- Whether two sets have the same members, in any order. -/
def sameAs (s t : PathSet) : Bool := s.size == t.size && s.toList.all t.contains

/-! ### Calls -/

/-- A use of a set. -/
inductive Call where
  /-- A path is added. -/
  | insert (p : Path)
  /-- Paths are added one after the other. -/
  | extend (ps : List Path)
  /-- A path is removed. -/
  | remove (p : Path)
  /-- It is asked whether a path is a member. -/
  | contains (p : Path)
  /-- The members are listed. -/
  | list
  deriving DecidableEq, Repr

/-- What a call gives back. -/
inductive Answer where
  /-- Nothing: paths were added. -/
  | done
  /-- Whether the added path was new, or whether the other path was a member. -/
  | said (yes : Bool)
  /-- The members, in order. -/
  | members (ps : List Path)
  deriving DecidableEq, Repr

/-- Carry out a call. -/
def call (s : PathSet) : Call → Answer × PathSet
  | .insert p => (.said (!s.contains p), s.insert p)
  | .extend ps => (.done, s.extend ps)
  | .remove p => (.said (s.contains p), s.erase p)
  | .contains p => (.said (s.contains p), s)
  | .list => (.members s.toList, s)

end PathSet

end ViewHolder
