/-!
# Verbosity

How much a command says about its progress.

## Main definitions

* `Verbosity`, `Verbosity.rank` : the levels, from the least output to the most.
* `Verbosity.ofName` : the level of a name, whatever the case of its letters.
-/

namespace ViewHolder

/-- How much a command says about its progress. -/
inductive Verbosity where
  | quiet
  | normal
  | verbose
  | debug
  deriving DecidableEq, Inhabited, Repr

namespace Verbosity

/-- The levels in ascending order. -/
def rank : Verbosity → Nat
  | quiet => 0
  | normal => 1
  | verbose => 2
  | debug => 3

/-- Whether a level says at least as much as another one. -/
def atLeast (v w : Verbosity) : Bool := w.rank ≤ v.rank

/-- The name of a level. -/
def name : Verbosity → String
  | quiet => "quiet"
  | normal => "normal"
  | verbose => "verbose"
  | debug => "debug"

/-- All levels. -/
def all : List Verbosity := [quiet, normal, verbose, debug]

/-- The level with exactly this name. -/
def ofName? (s : String) : Option Verbosity := all.find? fun v => v.name == s

/-- The level of a name, whatever the case of its letters; any other name is the normal level.
No character outside ASCII has one of the letters of these names as its lower-case form. -/
def ofName (s : String) : Verbosity :=
  (ofName? (String.ofList (s.toList.map Char.toLower))).getD normal

end Verbosity

end ViewHolder
