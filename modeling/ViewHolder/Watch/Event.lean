import ViewHolder.Json.Line
import ViewHolder.Settings.Verbosity

/-!
# Events of a watch

A watch reports what it sees and what its compile runs do, as text for people or as JSON lines.

## Main definitions

* `WatchEvent` : what happens during a watch.
* `WatchEvent.json` : an event as a JSON line.
* `WatchEvent.line?` : an event as a line for people.
-/

namespace ViewHolder

/-- What happens during a watch. -/
inductive WatchEvent where
  /-- The watch has begun; these directories are watched. -/
  | started (watching : List String)
  /-- A layout file is new or different. -/
  | changed (file : String)
  /-- A layout file is gone. -/
  | removed (file : String)
  /-- A compile run begins. -/
  | compileStarted
  /-- A compile run succeeded. -/
  | compileComplete (written unchanged pruned : Nat)
  /-- Something failed; the watch goes on. -/
  | failed (message : String)
  /-- The watch is over. -/
  | shutdown
  deriving DecidableEq, Inhabited, Repr

namespace WatchEvent

/-- An event as members of a JSON object. -/
def members : WatchEvent → List Json.Member
  | started dirs =>
    [("command", .text "watch"), ("event", .text "watch_started"), ("watching", .texts dirs)]
  | changed p => [("command", .text "watch"), ("event", .text "file_changed"), ("path", .text p)]
  | removed p => [("command", .text "watch"), ("event", .text "file_removed"), ("path", .text p)]
  | compileStarted => [("command", .text "watch"), ("event", .text "compile_started")]
  | compileComplete w u p =>
    [("command", .text "watch"), ("event", .text "compile_complete"), ("pruned", .number p),
      ("unchanged", .number u), ("written", .number w)]
  | failed m => [("command", .text "watch"), ("event", .text "error"), ("message", .text m)]
  | shutdown => [("command", .text "watch"), ("event", .text "shutdown")]

/-- An event as a JSON line. -/
def json (e : WatchEvent) : String := Json.line e.members

/-- Whether an event tells of a failure. -/
def isFailure : WatchEvent → Bool
  | failed _ => true
  | _ => false

/-- The text of an event, if it has one. -/
def text? : WatchEvent → Option String
  | started dirs => some ("watching " ++ ", ".intercalate dirs ++ " (Ctrl+C to stop)")
  | changed p => some ("changed " ++ p)
  | removed p => some ("removed " ++ p)
  | compileStarted => none
  | compileComplete w u p =>
    some ("compiled: " ++ toString w ++ " written, " ++ toString u ++ " unchanged, " ++ toString p
      ++ " pruned")
  | failed m => some ("error: " ++ m)
  | shutdown => some "stopped"

/-- An event as a line for people; the quiet level hears of failures only. -/
def line? (v : Verbosity) (e : WatchEvent) : Option String :=
  if e.isFailure || v != .quiet then e.text? else none

end WatchEvent

end ViewHolder
