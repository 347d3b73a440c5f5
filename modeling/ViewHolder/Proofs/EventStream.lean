import ViewHolder.Compile.Event
import ViewHolder.Proofs.JsonText
import ViewHolder.Proofs.SourceText
import ViewHolder.Watch.Event

/-!
# Streams of events

The events of a watch and of a compile run are reported as JSON objects, one to a line.  A line has
no line end in it, whatever the texts of its event hold, and says which event it reports: the
members `command` and `event` tell the kind of the event, and each of its texts and counts is a
member of its own.  So a stream of lines can be cut at its line ends, and the events can be read off
the pieces.

## Main definitions

* `StreamEvent` : an event of a watch or of a compile run.
* `StreamEvent.ofData?` : the event that an object reports.
* `StreamEvent.stream` : the text of some events, a line for each.

## Main results

* `StreamEvent.ofData?_objectOf` : an event is recovered from its object.
* `StreamEvent.stream_read_back` : what the lines of a stream are and what they say.
-/

namespace ViewHolder

/-! ### Members of an object -/

namespace Json.Data

/-- The member of an object with a name. -/
def member? : Data → String → Option Data
  | object members, name => members.lookup name
  | _, _ => none

/-- The text of a string. -/
def text? : Data → Option String
  | text s => some s
  | _ => none

/-- The count that a number without a sign, a fraction and an exponent is. -/
def count? : Data → Option Nat
  | number false ⟨n, 0⟩ => some n
  | _ => none

/-- The texts of an array of strings. -/
def texts? : Data → Option (List String)
  | array items => items.mapM text?
  | _ => none

/-- The text of a member. -/
def textOf? (d : Data) (name : String) : Option String := (d.member? name).bind text?

/-- The count of a member. -/
def countOf? (d : Data) (name : String) : Option Nat := (d.member? name).bind count?

/-- The texts of a member. -/
def textsOf? (d : Data) (name : String) : Option (List String) := (d.member? name).bind texts?

@[simp] theorem texts?_array (l : List String) : (array (l.map .text)).texts? = some l := by
  induction l with
  | nil => rfl
  | cons s l ih =>
    rw [texts?, List.map_cons, List.mapM_cons, text?]
    rw [texts?] at ih
    rw [ih]
    rfl

end Json.Data

open Json (Data)

/-! ### Events of objects -/

/-- The event of a watch that an object reports. -/
def WatchEvent.ofData? (d : Data) : Option WatchEvent :=
  match d.textOf? "event" with
  | some "watch_started" => (d.textsOf? "watching").map .started
  | some "file_changed" => (d.textOf? "path").map .changed
  | some "file_removed" => (d.textOf? "path").map .removed
  | some "compile_started" => some .compileStarted
  | some "compile_complete" => do
    return .compileComplete (← d.countOf? "written") (← d.countOf? "unchanged")
      (← d.countOf? "pruned")
  | some "error" => (d.textOf? "message").map .failed
  | some "shutdown" => some .shutdown
  | _ => none

/-- The mode with a name. -/
def CompileMode.ofName? : String → Option CompileMode
  | "full" => some full
  | "incremental" => some incremental
  | _ => none

/-- The path that is shown as a member of an object. -/
def Json.Data.pathOf? (d : Data) (name : String) : Option Path := (d.textOf? name).map Path.mk

/-- The event of a compile run that an object reports. -/
def CompileEvent.ofData? (d : Data) : Option CompileEvent :=
  match d.textOf? "event" with
  | some "start" => do
    return .started (← (d.textOf? "mode").bind CompileMode.ofName?) (← d.countOf? "candidate_count")
  | some "parsed" => do return .parsed (← d.pathOf? "path") (← d.countOf? "view_count")
  | some "layout_empty" => (d.textOf? "layout").map .empty
  | some "item_written" => do return .written (← d.textOf? "layout") (← d.pathOf? "path")
  | some "item_unchanged" => do return .unchanged (← d.textOf? "layout") (← d.pathOf? "path")
  | some "item_pruned" => do return .pruned (← d.textOf? "layout") (← d.pathOf? "path")
  | some "complete" => do
    return .completed (← d.countOf? "written") (← d.countOf? "unchanged") (← d.countOf? "empty")
      (← d.countOf? "pruned")
  | _ => none

/-- What a line of a stream reports. -/
inductive StreamEvent where
  /-- An event of a watch. -/
  | watch (e : WatchEvent)
  /-- An event of a compile run. -/
  | compile (e : CompileEvent)
  deriving DecidableEq, Repr

namespace StreamEvent

/-- An event as members of a JSON object. -/
def members : StreamEvent → List Json.Member
  | watch e => e.members
  | compile e => e.members

/-- An event as a JSON line. -/
def json : StreamEvent → String
  | watch e => e.json
  | compile e => e.json

theorem json_eq_line (e : StreamEvent) : e.json = Json.line e.members := by
  cases e <;> rfl

/-- The event that an object reports. -/
def ofData? (d : Data) : Option StreamEvent :=
  match d.textOf? "command" with
  | some "watch" => (WatchEvent.ofData? d).map watch
  | some "compile" => (CompileEvent.ofData? d).map compile
  | _ => none

/-- The event that a line reports. -/
def ofLine? (line : List Char) : Option StreamEvent :=
  (Json.read? (String.ofList line)).bind ofData?

/-- The text of some events, each on a line of its own. -/
def stream (events : List StreamEvent) : String :=
  String.join ((events.map json).map (· ++ "\n"))

/-- **An event is recovered from its object.** -/
theorem ofData?_objectOf (e : StreamEvent) : ofData? (Json.objectOf e.members) = some e := by
  cases e with
  | watch e =>
    cases e with
    | started dirs =>
      change ((Data.array (dirs.map .text)).texts?.map WatchEvent.started).map watch = _
      rw [Json.Data.texts?_array]
      rfl
    | _ => rfl
  | compile e =>
    cases e with
    | started mode n => cases mode <;> rfl
    | _ => rfl

theorem ofLine?_json (e : StreamEvent) : ofLine? e.json.toList = some e := by
  rw [ofLine?, String.ofList_toList, json_eq_line, Json.read?_line, Option.bind_some,
    ofData?_objectOf]

/-- Different events have different lines. -/
theorem json_injective : Function.Injective json := fun e e' h => by
  have hline := congrArg (fun line : String => ofLine? line.toList) h
  simpa only [ofLine?_json, Option.some.injEq] using hline

theorem json_printable (e : StreamEvent) : ∀ c ∈ e.json.toList, 32 ≤ c.toNat := by
  rw [json_eq_line]
  exact Json.line_printable e.members

theorem isOneLine_json (e : StreamEvent) : Text.IsOneLine e.json :=
  ⟨fun h => absurd (e.json_printable _ h) (by decide),
    fun h => absurd (e.json_printable _ h) (by decide)⟩

/-- No two members of an event have one name, so that it does not matter which of several members
with one name a reader takes. -/
theorem names_nodup (e : StreamEvent) : (e.members.map Prod.fst).Nodup := by
  cases e with
  | watch e => cases e <;> simp [members, WatchEvent.members]
  | compile e => cases e <;> simp [members, CompileEvent.members, CompileEvent.itemMembers]

/-- **What the lines of a stream are and what they say.**  The line of an event has no control
character and is one JSON object, whose members have different names and from which the event is
recovered; so events that differ have lines that differ.  Cut at its line ends, the stream of any
events, those that a listener of a compile run writes among them, has one piece for each of them,
its line, and nothing behind the last line end; and each piece says which event it reports. -/
theorem stream_read_back :
    (∀ e : StreamEvent, (∀ c ∈ e.json.toList, 32 ≤ c.toNat) ∧
      ∃ members, Json.read? e.json = some (.object members) ∧ (members.map Prod.fst).Nodup ∧
        ofData? (.object members) = some e) ∧
    Function.Injective json ∧
    (∀ events : List CompileEvent,
      Listener.json.hear events = (events.map compile).map json) ∧
    ∀ events : List StreamEvent,
      Text.pieces Text.isLineEnd (stream events).toList =
        events.map (fun e => e.json.toList) ++ [[]] ∧
      (events.map fun e => e.json.toList).map ofLine? = events.map some := by
  refine ⟨fun e => ⟨e.json_printable, _, ?_, ?_, ofData?_objectOf e⟩, json_injective,
    fun events => ?_, fun events => ⟨?_, ?_⟩⟩
  · rw [json_eq_line, Json.read?_line, Json.objectOf]
  · rw [List.map_map]
    exact e.names_nodup
  · rw [List.map_map, ← List.filterMap_eq_map]
    rfl
  · have hlines : ∀ line ∈ events.map json, Text.IsOneLine line :=
      List.forall_mem_map.2 fun e _ => e.isOneLine_json
    rw [stream, Text.pieces_join hlines, List.map_map]
    rfl
  · rw [List.map_map]
    refine List.map_congr_left fun e _ => ?_
    rw [Function.comp_apply, ofLine?_json]

/-- Two events, one of them with a path that holds a line end, a quote and a control character. -/
def spelledEvents : List StreamEvent :=
  [.watch (.compileComplete 1 0 (2 ^ 64 - 1)), .compile (.written "a" ⟨"b\n\"\x01é"⟩)]

theorem stream_read_back_spelledEvents :
    spelledEvents.map json =
      ["\x7b\"command\":\"watch\",\"event\":\"compile_complete\"," ++
          "\"pruned\":18446744073709551615,\"unchanged\":0,\"written\":1\x7d",
        "\x7b\"command\":\"compile\",\"event\":\"item_written\",\"layout\":\"a\"," ++
          "\"path\":\"b\\n\\\"\\u0001é\"\x7d"] ∧
      Text.pieces Text.isLineEnd (stream spelledEvents).toList =
        spelledEvents.map (fun e => e.json.toList) ++ [[]] ∧
      (spelledEvents.map fun e => e.json.toList).map ofLine? = spelledEvents.map some := by
  obtain ⟨-, -, -, hstream⟩ := stream_read_back
  refine ⟨?_, hstream spelledEvents⟩
  decide +kernel

end StreamEvent

end ViewHolder
