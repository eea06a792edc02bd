import HtmlTemplate.Template.Basic
import HtmlTemplate.Template.Draft
import HtmlTemplate.Template.Placement

/-!
# Compiling a skeleton

The segments of a skeleton are joined with a marker for each slot, the joined text is read as
markup, and the events make a draft. The draft is a template when it has all the slots of the
skeleton and one chunk more.
-/

namespace HtmlTemplate

namespace Template

/-- The template of a finished draft for a skeleton with `expected` slots. -/
def ofDraft (expected : Nat) (d : Draft) : Noted (Except CompileError Template) :=
  if d.slots.length = expected then
    let notes := d.notes ++ [.compiled d.slots.length d.chunks.length]
    match ofParts? d.chunks d.slots with
    | some template => ⟨.ok template, notes⟩
    | none => ⟨.error (.missingSlots expected d.slots.length), notes⟩
  else ⟨.error (.missingSlots expected d.slots.length), d.notes⟩

/-- The template of the events that a source reports, for a skeleton with `expected` slots. -/
def ofReport (s : Sentinel) (options : Options) (expected : Nat) (report : EventReport) :
    Noted (Except CompileError Template) :=
  match Draft.takeAll s options Draft.empty report.events with
  | .error failure => ⟨.error failure.error, failure.notes⟩
  | .ok d =>
    match report.failure with
    | some reason => ⟨.error (.unreadable reason), d.notes⟩
    | none => ofDraft expected d

/-- Compiles the segments of a skeleton. -/
def compile (s : Sentinel) (options : Options) (source : EventSource) (segments : List Text) :
    Noted (Except CompileError Template) := do
  .note .classifyBegins
  ofReport s options (segments.length - 1) (source (s.join segments))

end Template

end HtmlTemplate
