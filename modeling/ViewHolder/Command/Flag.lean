import ViewHolder.Settings.Environment

/-!
# Flags

The flags of a command line.  A flag has a name of several letters and may have a letter; it takes
no value, one value, or all values up to the next flag.

## Main definitions

* `Flag`, `Flag.name`, `Flag.letter?` : the flags and how they are written.
* `Flag.arity`, `Flag.accepts` : the values that a flag takes.
-/

namespace ViewHolder

/-- The flags of a command line. -/
inductive Flag where
  | config
  | json
  | verbose
  | quiet
  | version
  | help
  | res
  | out
  | package
  | noDefaultInclude
  | jobs
  | prune
  | changed
  | removed
  deriving DecidableEq, Inhabited, Repr

/-- How many values a flag takes. -/
inductive Arity where
  | none
  | one
  /-- At least one, and all up to the next flag. -/
  | many
  deriving DecidableEq, Inhabited, Repr

namespace Flag

/-- The name of a flag. -/
def name : Flag → String
  | config => "config"
  | json => "json"
  | verbose => "verbose"
  | quiet => "quiet"
  | version => "version"
  | help => "help"
  | res => "res"
  | out => "out"
  | package => "package"
  | noDefaultInclude => "no-default-include"
  | jobs => "jobs"
  | prune => "prune"
  | changed => "changed"
  | removed => "removed"

/-- The letter of a flag. -/
def letter? : Flag → Option Char
  | verbose => some 'v'
  | quiet => some 'q'
  | version => some 'V'
  | help => some 'h'
  | _ => Option.none

/-- How many values a flag takes. -/
def arity : Flag → Arity
  | config => .one
  | res => .one
  | out => .one
  | package => .one
  | jobs => .one
  | changed => .many
  | removed => .many
  | _ => .none

/-- Whether a flag may be given several times. -/
def isRepeatable : Flag → Bool
  | verbose => true
  | res => true
  | changed => true
  | removed => true
  | _ => false

/-- Whether a flag may have a value: a path is not empty, and the number of jobs is a number. -/
def accepts (f : Flag) (value : String) : Bool :=
  match f with
  | config => !value.isEmpty
  | res => !value.isEmpty
  | out => !value.isEmpty
  | changed => !value.isEmpty
  | removed => !value.isEmpty
  | jobs => (countOfChars? value.toList).isSome
  | _ => true

/-- The flags that every command takes. -/
def shared : List Flag := [config, json, verbose, quiet, help]

/-- The flags of a compile run. -/
def ofCompile : List Flag := [res, out, package, noDefaultInclude, jobs, prune]

end Flag

end ViewHolder
