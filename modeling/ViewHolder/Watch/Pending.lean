import ViewHolder.Path.Set

/-!
# Pending changes

Changes come in bursts.  They are collected until none has arrived for a while, and are then
taken all at once.  Time is counted in milliseconds.

## Main definitions

* `Pending` : the changes since they were last taken.
* `Pending.add`, `Pending.take` : a change arrives, and all changes are taken.
* `Pending.isSettled` : whether the burst is over.
-/

namespace ViewHolder

/-- How long no change may arrive before a burst is over. -/
def settleTime : Nat := 100

/-- The changes since they were last taken. -/
structure Pending where
  /-- The changed paths, first arrival first. -/
  paths : PathSet
  /-- When the last change arrived. -/
  last : Option Nat

namespace Pending

/-- No changes. -/
def none : Pending := ⟨PathSet.empty, .none⟩

/-- A change arrives. -/
def add (p : Pending) (now : Nat) (path : Path) : Pending := ⟨p.paths.insert path, some now⟩

/-- Whether there are changes. -/
def isPending (p : Pending) : Bool := !p.paths.isEmpty

/-- Whether there are changes and the burst is over. -/
def isSettled (p : Pending) (now : Nat) : Bool :=
  match p.last with
  | some last => p.isPending && last + settleTime ≤ now
  | .none => false

/-- Take all changes. -/
def take (p : Pending) : List Path × Pending := (p.paths.toList, none)

end Pending

end ViewHolder
