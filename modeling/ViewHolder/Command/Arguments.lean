import ViewHolder.Command.Flag
import ViewHolder.Path.Basic
import ViewHolder.Text.Basic

/-!
# Arguments

The arguments of a command line are read on two levels: those before the name of the command, and
those after it.  Flags that every command takes may stand on either level; where both levels give
one a value, the second level wins.

## Main definitions

* `Misuse` : why arguments make no sense.
* `Word` : what a single argument looks like.
* `Level`, `Level.read` : the arguments of a level.
* `Overrides`, `Command`, `Invocation` : what the arguments ask for.
* `Invocation.ofArguments` : the reading of all arguments.
-/

namespace ViewHolder

/-! ### Outcomes other than an invocation -/

/-- Why arguments make no sense. -/
inductive Misuse where
  /-- No command is named. -/
  | noCommand
  /-- There is no such command. -/
  | unknownCommand (name : String)
  /-- There is no such flag here. -/
  | unknownFlag (text : String)
  /-- A flag is given again. -/
  | repeated (flag : Flag)
  /-- A flag has no value. -/
  | missingValue (flag : Flag)
  /-- A flag has a value and takes none. -/
  | needlessValue (flag : Flag)
  /-- A flag cannot have this value. -/
  | badValue (flag : Flag) (value : String)
  /-- Nothing takes this argument. -/
  | unexpected (text : String)
  /-- An argument of the command is missing. -/
  | missingArgument
  /-- Two flags that contradict each other. -/
  | conflict (flag other : Flag)
  deriving DecidableEq, Inhabited, Repr

/-- The text of a misuse. -/
def Misuse.message : Misuse → String
  | noCommand => "error: a command is required"
  | unknownCommand name => "error: unknown command '" ++ name ++ "'"
  | unknownFlag text => "error: unexpected flag '" ++ text ++ "'"
  | repeated f => "error: '--" ++ f.name ++ "' cannot be used several times"
  | missingValue f => "error: '--" ++ f.name ++ "' requires a value"
  | needlessValue f => "error: '--" ++ f.name ++ "' takes no value"
  | badValue f value => "error: invalid value '" ++ value ++ "' for '--" ++ f.name ++ "'"
  | unexpected text => "error: unexpected argument '" ++ text ++ "'"
  | missingArgument => "error: a required argument is missing"
  | conflict f other => "error: '--" ++ f.name ++ "' cannot be used with '--" ++ other.name ++ "'"

/-- Why no command is carried out. -/
inductive Halt where
  /-- The version is asked for. -/
  | version
  /-- An explanation is asked for. -/
  | help
  /-- The arguments make no sense. -/
  | misuse (cause : Misuse)
  deriving DecidableEq, Inhabited, Repr

/-! ### Single arguments -/

/-- What a single argument looks like. -/
inductive Word where
  /-- No flags come after it. -/
  | escape
  /-- A flag with its name, perhaps with a value after an equals sign. -/
  | long (name : String) (value : Option String)
  /-- Some flags with their letters. -/
  | short (letters : List Char)
  /-- Anything else. -/
  | plain
  deriving DecidableEq, Inhabited, Repr

/-- What an argument looks like. -/
def Word.of (text : String) : Word :=
  match text.toList with
  | ['-', '-'] => escape
  | '-' :: '-' :: cs =>
    match cs.dropWhile (· != '=') with
    | [] => long (String.ofList cs) none
    | _ :: value => long (String.ofList (cs.takeWhile (· != '='))) (some (String.ofList value))
  | '-' :: c :: cs => short (c :: cs)
  | _ => plain

/-! ### Levels -/

/-- The flags that are given on a level with their values, and the other arguments. -/
structure Given where
  /-- The flags, in the order in which they are given. -/
  flags : List (Flag × List String) := []
  /-- The other arguments. -/
  words : List String := []
  deriving Inhabited, Repr

namespace Given

/-- How often a flag is given. -/
def times (g : Given) (f : Flag) : Nat := g.flags.countP (·.1 = f)

/-- Whether a flag is given. -/
def has (g : Given) (f : Flag) : Bool := 0 < g.times f

/-- The values that are given to a flag. -/
def values (g : Given) (f : Flag) : List String :=
  (g.flags.filter (·.1 = f)).flatMap (·.2)

/-- The value that is given to a flag. -/
def value? (g : Given) (f : Flag) : Option String := (g.values f).head?

/-- A flag is given with its values. -/
def add (g : Given) (f : Flag) (values : List String) : Except Halt Given :=
  if f = .version then .error .version
  else if f = .help then .error .help
  else if g.has f && !f.isRepeatable then .error (.misuse (.repeated f))
  else
    match values.find? fun v => !f.accepts v with
    | some v => .error (.misuse (.badValue f v))
    | none => .ok { g with flags := g.flags ++ [(f, values)] }

/-- No more values come for a flag. -/
def close (g : Given) : Option (Flag × List String) → Except Halt Given
  | none => .ok g
  | some (f, []) => .error (.misuse (.missingValue f))
  | some (f, values) => g.add f values

end Given

/-- What a level takes. -/
structure Level where
  /-- Its flags. -/
  flags : List Flag
  /-- How many other arguments it takes. -/
  words : Nat
  /-- Whether it ends with the name of a command. -/
  beforeCommand : Bool

namespace Level

/-- The flag of a level with the given name. -/
def flagNamed (level : Level) (name : String) : Except Halt Flag :=
  match level.flags.find? fun f => f.name == name with
  | some f => .ok f
  | none => .error (.misuse (.unknownFlag ("--" ++ name)))

/-- The flag of a level with the given letter. -/
def flagWithLetter (level : Level) (c : Char) : Except Halt Flag :=
  match level.flags.find? fun f => f.letter? == some c with
  | some f => .ok f
  | none => .error (.misuse (.unknownFlag (String.ofList ['-', c])))

/-- A flag is given by its letter. -/
def addLetter (level : Level) (g : Given) (c : Char) : Except Halt Given := do
  let f ← level.flagWithLetter c
  g.add f []

/-- A level takes an argument that is no flag. -/
def addWord (level : Level) (g : Given) (word : String) : Except Halt Given :=
  if g.words.length < level.words then .ok { g with words := g.words ++ [word] }
  else .error (.misuse (.unexpected word))

/-- Read the arguments of a level: what is given, and the arguments from the name of the command
on.  A flag that still takes values is given with its values so far. -/
def read (level : Level) (g : Given) (pending : Option (Flag × List String)) :
    List String → Except Halt (Given × List String)
  | [] => (g.close pending).map (·, [])
  | w :: ws =>
    match Word.of w, pending with
    | .escape, _ => do
      let g ← g.close pending
      let g ← ws.foldlM level.addWord g
      .ok (g, [])
    | .long name value, _ => do
      let g ← g.close pending
      let f ← level.flagNamed name
      match f.arity, value with
      | .none, none =>
        let g ← g.add f []
        level.read g none ws
      | .none, some _ => .error (.misuse (.needlessValue f))
      | _, some v =>
        let g ← g.add f [v]
        level.read g none ws
      | _, none => level.read g (some (f, [])) ws
    | .short letters, _ => do
      let g ← g.close pending
      let g ← letters.foldlM level.addLetter g
      level.read g none ws
    | .plain, some (f, values) =>
      if f.arity = .many then level.read g (some (f, values ++ [w])) ws
      else do
        let g ← g.add f (values ++ [w])
        level.read g none ws
    | .plain, none =>
      if level.beforeCommand then .ok (g, w :: ws)
      else do
        let g ← level.addWord g w
        level.read g none ws

end Level

/-! ### What is asked for -/

/-- The settings that a command line overrides. -/
structure Overrides where
  /-- The resource roots, unless there are none. -/
  resDirs : List Path
  /-- The directory below which holders are written. -/
  outputDir : Option Path
  /-- The package of the application. -/
  package : Option String
  /-- Whether elements are only taken if they ask for it. -/
  noDefaultInclude : Bool
  /-- How many layouts may be worked on at once. -/
  jobs : Option Nat
  /-- Whether holders that no layout needs any more are deleted. -/
  prune : Bool
  deriving DecidableEq, Inhabited, Repr

/-- The overrides that some flags give. -/
def Overrides.ofGiven (g : Given) : Overrides where
  resDirs := (g.values .res).map Path.mk
  outputDir := (g.value? .out).map Path.mk
  package := g.value? .package
  noDefaultInclude := g.has .noDefaultInclude
  jobs := (g.value? .jobs).bind fun s => countOfChars? s.toList
  prune := g.has .prune

/-- A command. -/
inductive Command where
  /-- Compile every layout. -/
  | compile (overrides : Overrides)
  /-- Compile what some changed and some removed files affect. -/
  | incremental (changed removed : List Path) (overrides : Overrides)
  /-- Compile every layout, and then what each change affects. -/
  | watch (overrides : Overrides)
  /-- Name the holder class of a layout. -/
  | className (layout : String)
  deriving DecidableEq, Inhabited, Repr

/-- The names of the commands. -/
inductive CommandName where
  | compile
  | incremental
  | watch
  | className
  deriving DecidableEq, Inhabited, Repr

namespace CommandName

/-- The text of a name. -/
def text : CommandName → String
  | compile => "compile"
  | incremental => "incremental"
  | watch => "watch"
  | className => "class-name"

/-- All names. -/
def all : List CommandName := [compile, incremental, watch, className]

/-- The name with a given text. -/
def ofText? (s : String) : Option CommandName := all.find? fun n => n.text == s

/-- What the level after a name takes. -/
def level : CommandName → Level
  | compile => ⟨Flag.shared ++ Flag.ofCompile, 0, false⟩
  | incremental => ⟨Flag.shared ++ Flag.ofCompile ++ [.changed, .removed], 0, false⟩
  | watch => ⟨Flag.shared ++ Flag.ofCompile, 0, false⟩
  | className => ⟨Flag.shared, 1, false⟩

/-- The command that a name and its arguments ask for. -/
def command (n : CommandName) (g : Given) : Except Halt Command :=
  match n, g.words with
  | compile, _ => .ok (.compile (.ofGiven g))
  | incremental, _ =>
    .ok (.incremental ((g.values .changed).map Path.mk) ((g.values .removed).map Path.mk)
      (.ofGiven g))
  | watch, _ => .ok (.watch (.ofGiven g))
  | className, layout :: _ => .ok (.className layout)
  | className, [] => .error (.misuse .missingArgument)

end CommandName

/-- What the arguments of a command line ask for. -/
structure Invocation where
  /-- The file with the settings, if it is named. -/
  config : Option Path
  /-- Whether progress is reported as JSON lines. -/
  json : Bool
  /-- How much more is to be said. -/
  verbose : Nat
  /-- Whether nothing but failures is to be said. -/
  quiet : Bool
  /-- The command. -/
  command : Command
  deriving DecidableEq, Inhabited, Repr

namespace Invocation

/-- What the level before the name of a command takes. -/
def firstLevel : Level := ⟨.version :: Flag.shared, 0, true⟩

/-- A level cannot ask both for more and for less to be said. -/
def checkConflict (g : Given) : Except Halt Unit :=
  if g.has .quiet && g.has .verbose then .error (.misuse (.conflict .quiet .verbose)) else .ok ()

/-- The invocation that the flags of both levels and a command make up. -/
def ofLevels (first second : Given) (command : Command) : Invocation where
  config := ((second.value? .config).or (first.value? .config)).map Path.mk
  json := first.has .json || second.has .json
  verbose := if second.has .verbose then second.times .verbose else first.times .verbose
  quiet := first.has .quiet || second.has .quiet
  command := command

/-- Whether an explanation may be asked for with these arguments. -/
def isHelp : List String → Bool
  | [] => true
  | [name] => name == "help" || (CommandName.ofText? name).isSome
  | _ => false

/-- What the name of a command and the arguments after it ask for. -/
def ofCommand (first : Given) (name : String) (args : List String) : Except Halt Invocation :=
  match CommandName.ofText? name with
  | none =>
    if name == "help" && isHelp args then .error .help
    else .error (.misuse (.unknownCommand name))
  | some n => do
    let (second, _) ← n.level.read {} none args
    let command ← n.command second
    checkConflict second
    checkConflict first
    .ok (ofLevels first second command)

/-- What arguments ask for. -/
def ofArguments (args : List String) : Except Halt Invocation := do
  let (first, rest) ← firstLevel.read {} none args
  match rest with
  | [] => .error (.misuse .noCommand)
  | name :: args => ofCommand first name args

end Invocation

end ViewHolder
