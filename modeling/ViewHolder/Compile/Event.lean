import ViewHolder.Json.Line
import ViewHolder.Path.Basic
import ViewHolder.Settings.Verbosity

/-!
# Events of a compile run

A run reports what it does as events.  A listener writes some of them as lines; it may not want
to hear of every file that is parsed.

## Main definitions

* `CompileEvent` : what happens in a run.
* `CompileEvent.line` : an event as a line for people, with the level from which it is written.
* `CompileEvent.json` : an event as a JSON line.
* `Listener` : what becomes of events.
-/

namespace ViewHolder

/-- How a run came by its layout files. -/
inductive CompileMode where
  /-- All files of some resource roots. -/
  | full
  /-- The files affected by some changes. -/
  | incremental
  deriving DecidableEq, Inhabited, Repr

/-- The name of a mode. -/
def CompileMode.name : CompileMode → String
  | full => "full"
  | incremental => "incremental"

/-- What happens in a run. -/
inductive CompileEvent where
  /-- The layout files are known. -/
  | started (mode : CompileMode) (candidates : Nat)
  /-- A layout file was read. -/
  | parsed (file : Path) (views : Nat)
  /-- A layout has no views. -/
  | empty (layout : String)
  /-- A holder was written. -/
  | written (layout : String) (file : Path)
  /-- A holder was up to date. -/
  | unchanged (layout : String) (file : Path)
  /-- A holder was deleted. -/
  | pruned (layout : String) (file : Path)
  /-- The run is over. -/
  | completed (written unchanged empty pruned : Nat)
  deriving DecidableEq, Inhabited, Repr

namespace CompileEvent

/-- Whether an event tells of a single file that was read. -/
def isParsed : CompileEvent → Bool
  | parsed _ _ => true
  | _ => false

/-- An event as a line for people, with the level from which it is written. -/
def line : CompileEvent → Verbosity × String
  | started mode n =>
    (.normal, "holdr: " ++ mode.name ++ " compile, " ++ toString n ++ " layout files")
  | parsed p n => (.verbose, "  parsed " ++ p.text ++ " (" ++ toString n ++ " views)")
  | empty l => (.verbose, "  skipped " ++ l ++ ": no views")
  | written _ p => (.normal, "  wrote " ++ p.text)
  | unchanged _ p => (.verbose, "  unchanged " ++ p.text)
  | pruned _ p => (.normal, "  pruned " ++ p.text)
  | completed w u e p =>
    (.normal, "holdr: " ++ toString w ++ " written, " ++ toString u ++ " unchanged, "
      ++ toString e ++ " empty, " ++ toString p ++ " pruned")

/-- An event about a holder as members of a JSON object. -/
def itemMembers (event layout : String) (p : Path) : List Json.Member :=
  [("command", .text "compile"), ("event", .text event), ("layout", .text layout),
    ("path", .text p.text)]

/-- An event as members of a JSON object. -/
def members : CompileEvent → List Json.Member
  | started mode n =>
    [("candidate_count", .number n), ("command", .text "compile"), ("event", .text "start"),
      ("mode", .text mode.name)]
  | parsed p n =>
    [("command", .text "compile"), ("event", .text "parsed"), ("path", .text p.text),
      ("view_count", .number n)]
  | empty l =>
    [("command", .text "compile"), ("event", .text "layout_empty"), ("layout", .text l)]
  | written l p => itemMembers "item_written" l p
  | unchanged l p => itemMembers "item_unchanged" l p
  | pruned l p => itemMembers "item_pruned" l p
  | completed w u e p =>
    [("command", .text "compile"), ("empty", .number e), ("event", .text "complete"),
      ("pruned", .number p), ("unchanged", .number u), ("written", .number w)]

/-- An event as a JSON line. -/
def json (e : CompileEvent) : String := Json.line e.members

end CompileEvent

/-- What becomes of the events of a run. -/
structure Listener where
  /-- Whether it is told of every file that is read. -/
  detailed : Bool
  /-- The line that it writes for an event, if it writes one. -/
  line? : CompileEvent → Option String

namespace Listener

/-- The listener that writes nothing. -/
def silent : Listener := ⟨false, fun _ => none⟩

/-- The listener that writes every event as a JSON line. -/
def json : Listener := ⟨true, fun e => some e.json⟩

/-- The listener that writes lines for people, up to a level. -/
def console (v : Verbosity) : Listener where
  detailed := v.atLeast .verbose
  line? e := if v.atLeast e.line.1 then some e.line.2 else none

/-- The events that a listener is told of. -/
def delivered (l : Listener) (events : List CompileEvent) : List CompileEvent :=
  if l.detailed then events else events.filter fun e => !e.isParsed

/-- The lines that a listener writes during a run. -/
def hear (l : Listener) (events : List CompileEvent) : List String :=
  (l.delivered events).filterMap l.line?

end Listener

end ViewHolder
