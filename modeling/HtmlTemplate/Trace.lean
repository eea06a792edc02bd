import HtmlTemplate.Inspect.Form
import HtmlTemplate.Timeline

/-!
# Reports from the journal

Two views of the journal. The trace tells a developer what the library decides, each record with its
level, a message and fields. The log tells in which order named values were asked for and settled.
-/

namespace HtmlTemplate

/-- How much a record matters. -/
inductive Level where
  /-- The beginning of an activity. -/
  | span
  | trace
  | debug
  | warning
  deriving Repr, DecidableEq

/-- The name of a level. -/
def Level.name : Level → Text
  | span => "SPAN".toList
  | trace => "TRACE".toList
  | debug => "DEBUG".toList
  | warning => "WARN".toList

/-- One line of the trace. -/
structure TraceRecord where
  level : Level
  message : Text
  fields : List (Text × Text)
  deriving Repr, DecidableEq

namespace Note

/-- A record, its message and the names of its fields given as strings. -/
def recorded (level : Level) (message : String) (fields : List (String × Text)) : TraceRecord :=
  ⟨level, message.toList, fields.map fun (name, text) => (name.toList, text)⟩

/-- The record of a note, if it belongs to the trace. -/
def traced? : Note → Option TraceRecord
  | renderBegins => some (recorded .span "render" [])
  | classifyBegins => some (recorded .span "classify" [])
  | classified slot kind =>
    some (recorded .trace "classified slot" [("slot", Text.ofNat slot), ("kind", kind.describe)])
  | minifierFailed language reason =>
    some (recorded .warning "minifier failed, keeping original text"
      [("language", language), ("error", minifierMessage reason)])
  | compiled slots chunks =>
    some (recorded .debug "compiled template"
      [("slots", Text.ofNat slots), ("chunks", Text.ofNat chunks)])
  | compileBegins slots => some (recorded .debug "compiling template" [("slots", Text.ofNat slots)])
  | cacheHit => some (recorded .trace "template cache hit" [])
  | purged count => some (recorded .debug "purged template cache" [("purged", Text.ofNat count)])
  | renderWaits slots =>
    some (recorded .trace "rendering with asynchronous values" [("slots", Text.ofNat slots)])
  | arrayStreams slot leaves =>
    some (recorded .trace "streaming array slot"
      [("slot", Text.ofNat slot), ("leaves", Text.ofNat leaves)])
  | unmatched keys =>
    some (recorded .trace "no content transformer matched"
      [("keys", Inspect.sequence (keys.map Text.quote))])
  | unresolved shape =>
    some (recorded .warning "unresolved asynchronous value in synchronous render"
      [("shape", shape)])
  | streamAborted error => some (recorded .debug "stream aborted" [("error", error.message)])
  | rendered _ => none
  | called _ => none
  | settled _ => none
  | transformed _ => none
  | intended _ => none

/-- The word for what a named value did, and its name. -/
def logged? : Note → Option (Text × Text)
  | rendered (some name) => some ("render".toList, name)
  | called (some name) => some ("call".toList, name)
  | settled (some name) => some ("settle".toList, name)
  | _ => none

end Note

namespace Timeline

/-- The trace of what has happened. -/
def trace (line : Timeline) : List TraceRecord :=
  line.journal.filterMap fun (_, note) => note.traced?

/-- The log of what has happened after the first `skip` notes: tick, word and name. -/
def logFrom (skip : Nat) (line : Timeline) : List (Nat × Text × Text) :=
  (line.journal.drop skip).filterMap fun (tick, note) =>
    note.logged?.map fun (word, name) => (tick, word, name)

end Timeline

end HtmlTemplate
