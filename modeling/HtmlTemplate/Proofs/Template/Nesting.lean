import HtmlTemplate.Proofs.Template.Blanks
import HtmlTemplate.Template.Draft

/-!
# What is open around a text

How a literal text is written depends on what is open around it. That is known from the events
before it, as long as every end tag closes the innermost open element (`Nesting.isProper`): text in
a character data section or directly inside `script` and `style` is written as it is, text anywhere
inside `pre`, `code` or `textarea` is escaped, and all other text is ordinary.

What is written for a skeleton is a list of outputs, which are put together to chunks and slots.
Only ordinary text comes out differently when white space is collapsed.
-/

namespace HtmlTemplate

/-! ## Where a text stands -/

/-- How a literal text is written. -/
inductive Setting where
  /-- As it is. -/
  | verbatim
  /-- Escaped, with all its white space. -/
  | preformatted
  | ordinary
  deriving Repr, DecidableEq

/-- A literal text as it is written. -/
def Setting.write (collapse : Bool) : Setting → Text → Text
  | verbatim, text => text
  | preformatted, text => Text.escapeText text
  | ordinary, text => Text.escapeText (if collapse then Text.collapsed text else text)

/-- What is open at some point of a page. -/
structure Nesting where
  /-- The open elements, the innermost first. -/
  enclosing : List Text
  /-- Whether a character data section is open. -/
  inSection : Bool
  deriving Repr, DecidableEq

namespace Nesting

/-- Nothing is open before the first event. -/
def start : Nesting := ⟨[], false⟩

/-- After a start tag its element is open, if it is one with content. -/
def enter (p : Nesting) (name : Text) : Nesting :=
  if Vocabulary.isVoid name then p else { p with enclosing := name :: p.enclosing }

/-- After an end tag the innermost element is not open any more. There is no such nesting if the tag
does not close it; elements without content are never open. -/
def leave? (p : Nesting) (name : Text) : Option Nesting :=
  if Vocabulary.isVoid name then some p
  else if p.enclosing.head? = some name then some { p with enclosing := p.enclosing.tail }
  else none

/-- What is open after an event. -/
def after? (p : Nesting) : Event → Option Nesting
  | .openTag name _ => some (p.enter name)
  | .closeTag name => p.leave? name
  | .sectionStart => some { p with inSection := true }
  | .sectionEnd => some { p with inSection := false }
  | _ => some p

/-- Whether every end tag closes the innermost open element. -/
def isProper : Nesting → List Event → Bool
  | _, [] => true
  | p, event :: rest =>
    match p.after? event with
    | some q => q.isProper rest
    | none => false

/-- Whether text directly inside an element is written as it is. -/
def isVerbatim (name : Text) : Bool := name == "script".toList || name == "style".toList

/-- Whether all text inside an element keeps its white space. -/
def isPreformatted (name : Text) : Bool :=
  name == "pre".toList || name == "code".toList || name == "textarea".toList

/-- How text is written there. -/
def setting (p : Nesting) : Setting :=
  if p.inSection || p.enclosing.head?.any isVerbatim then .verbatim
  else if p.enclosing.any isPreformatted then .preformatted
  else .ordinary

/-- The literal pieces of a text there, each with how it is written. -/
def literals (p : Nesting) (parts : List Sentinel.Piece) : List (Setting × Text) :=
  parts.filterMap fun
    | .literal text => some (p.setting, text)
    | .slot _ => none

/-- The literal texts of an event, each with how it is written. -/
def textsOf (s : Sentinel) (p : Nesting) : Event → List (Setting × Text)
  | .text content => p.literals (s.split content)
  | _ => []

/-- The literal texts of events from there on, each with how it is written. -/
def texts (s : Sentinel) : Nesting → List Event → List (Setting × Text)
  | _, [] => []
  | p, event :: rest =>
    p.textsOf s event ++
    match p.after? event with
    | some q => q.texts s rest
    | none => []

/-- No element without content is open. -/
def Solid (p : Nesting) : Prop := ∀ name ∈ p.enclosing, Vocabulary.isVoid name = false

variable {p q : Nesting}

theorem solid_start : start.Solid := fun _ member => by cases member

theorem Solid.enter (h : p.Solid) (name : Text) : (p.enter name).Solid := by
  unfold Nesting.enter
  split
  · exact h
  · rename_i solid
    intro other member
    rcases List.mem_cons.mp member with rfl | member
    · simpa using solid
    · exact h other member

theorem Solid.leave (h : p.Solid) {name : Text} (left : p.leave? name = some q) : q.Solid := by
  unfold leave? at left
  split at left
  · obtain rfl := Option.some.inj left
    exact h
  · split at left
    · obtain rfl := Option.some.inj left
      exact fun other member => h other (List.mem_of_mem_tail member)
    · cases left

theorem Solid.after (h : p.Solid) {event : Event} (next : p.after? event = some q) : q.Solid := by
  cases event with
  | openTag name attributes =>
    obtain rfl := Option.some.inj next
    exact h.enter name
  | closeTag name => exact h.leave next
  | _ =>
    obtain rfl := Option.some.inj next
    exact h

/-- Among the elements that keep white space there is one without content, which is never open. -/
theorem Solid.any_isPreformatted (h : p.Solid) :
    p.enclosing.any Vocabulary.isPreformatted = p.enclosing.any isPreformatted := by
  have same : ∀ name ∈ p.enclosing, Vocabulary.isPreformatted name = isPreformatted name := by
    intro name member
    have other : name ≠ "input".toList := by
      rintro rfl
      cases h _ member
    have other : (name == "input".toList) = false := beq_false_of_ne other
    simp only [Vocabulary.isPreformatted, Vocabulary.preformattedElements, isPreformatted,
      List.map_cons, List.map_nil, List.contains_cons, List.contains_nil, other, Bool.false_or,
      Bool.or_false]
    cases name == "pre".toList <;> cases name == "code".toList <;> rfl
  rw [Bool.eq_iff_iff, List.any_eq_true, List.any_eq_true]
  exact exists_congr fun name => and_congr_right fun member => by rw [same name member]

end Nesting

/-! ## Outputs -/

/-- What is written for a skeleton, piece by piece. -/
inductive Output where
  | markup (text : Text)
  | literal (setting : Setting) (text : Text)
  | slot (kind : SlotKind)
  /-- The end of the last chunk. -/
  | finish
  deriving Repr, DecidableEq

namespace Output

/-- Adds an output to the complete chunks and the one that is being written. -/
def add (collapse : Bool) : List Text × Text → Output → List Text × Text
  | (chunks, current), markup text => (chunks, current ++ text)
  | (chunks, current), literal setting text => (chunks, current ++ setting.write collapse text)
  | (chunks, current), slot _ => (chunks ++ [current], [])
  | (chunks, current), finish => (chunks ++ [current], [])

/-- The complete chunks of some outputs, and the one that is being written. -/
def assemble (collapse : Bool) (outputs : List Output) : List Text × Text :=
  outputs.foldl (add collapse) ([], [])

def kind? : Output → Option SlotKind
  | slot kind => some kind
  | _ => none

def text? : Output → Option (Setting × Text)
  | literal setting text => some (setting, text)
  | _ => none

/-- The kinds of the slots among some outputs. -/
def kinds (outputs : List Output) : List SlotKind := outputs.filterMap kind?

/-- The literal texts among some outputs. -/
def texts (outputs : List Output) : List (Setting × Text) := outputs.filterMap text?

theorem assemble_append (collapse : Bool) (outputs : List Output) (output : Output) :
    assemble collapse (outputs ++ [output]) = add collapse (assemble collapse outputs) output := by
  rw [assemble, List.foldl_append]
  rfl

theorem kinds_append (outputs : List Output) (output : Output) :
    kinds (outputs ++ [output]) = kinds outputs ++ output.kind?.toList := by
  rw [kinds, List.filterMap_append]
  cases output <;> rfl

theorem texts_append (outputs : List Output) (output : Output) :
    texts (outputs ++ [output]) = texts outputs ++ output.text?.toList := by
  rw [texts, List.filterMap_append]
  cases output <;> rfl

/-- There are as many chunks with collapsing as without. -/
theorem length_assemble (collapse collapse' : Bool) (outputs : List Output) :
    (assemble collapse outputs).1.length = (assemble collapse' outputs).1.length := by
  induction outputs using List.reverseRecOn with
  | nil => rfl
  | append_singleton outputs output ih =>
    rw [assemble_append, assemble_append]
    cases output with
    | slot kind => simp only [add, List.length_append, List.length_singleton, ih]
    | finish => simp only [add, List.length_append, List.length_singleton, ih]
    | _ => exact ih

end Output

end HtmlTemplate
