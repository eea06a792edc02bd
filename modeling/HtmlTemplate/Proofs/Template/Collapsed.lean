import HtmlTemplate.Proofs.Template.Company
import HtmlTemplate.Proofs.Template.Nesting
import HtmlTemplate.Proofs.Template.Slots

/-!
# Collapsing white space

Collapsing touches ordinary text only. A draft that takes the events of a skeleton has an outline,
which does not know whether white space is collapsed; by it every event is taken the same way in
both cases (`Outline.uniform_takeAll`). So a skeleton compiles with collapsing exactly if it does
without, to the same slots and from the same outputs (`Template.compile_collapsing`).
-/

namespace HtmlTemplate

/-- The same options, with or without collapsing. -/
def Options.collapsing (options : Options) (collapse : Bool) : Options :=
  { options with collapse := collapse }

/-- A text that is not cut is a literal piece. -/
theorem Sentinel.literal_of_split {s : Sentinel} {content : Text} {piece : Piece}
    (h : s.split content = [piece]) : piece = .literal content := by
  have single (fuel : Nat) : s.splitWithin fuel content = [piece] → piece = .literal content := by
    cases fuel with
    | zero => exact fun h => (List.cons.inj h).1.symm
    | succ fuel =>
      rw [splitWithin]
      split
      · exact fun h => (List.cons.inj h).1.symm
      · rename_i after _
        split
        · exact fun h => by cases h
        · obtain ⟨text, parts, same⟩ := s.splitWithin_eq_cons fuel after
          rw [same]
          exact fun h => by cases h
  exact single content.length h

theorem Draft.closeElement_head (name : Text) (rest : List Text) :
    closeElement name (name :: rest) = rest := by
  simp [closeElement]

/-! ## Outlines -/

/-- A draft before it is decided whether white space is collapsed. -/
structure Outline where
  outputs : List Output
  nesting : Nesting
  notes : List Note

namespace Outline

/-- The outline before the first event. -/
def empty : Outline := ⟨[], .start, []⟩

/-- The draft of an outline. -/
def draft (collapse : Bool) (o : Outline) : Draft where
  current := (Output.assemble collapse o.outputs).2
  chunks := (Output.assemble collapse o.outputs).1
  slots := Output.kinds o.outputs
  openElements := o.nesting.enclosing
  inSection := o.nesting.inSection
  notes := o.notes

/-- The outline with one more output. -/
def put (o : Outline) (output : Output) : Outline := { o with outputs := o.outputs ++ [output] }

/-- The outline goes on from another one with some literal texts, to a nesting. -/
structure Extends (o : Outline) (texts : List (Setting × Text)) (nesting : Nesting) (o' : Outline) :
    Prop where
  texts : Output.texts o'.outputs = Output.texts o.outputs ++ texts
  nesting : o'.nesting = nesting

variable {o o' : Outline} {texts texts' : List (Setting × Text)} {p q : Nesting}

theorem Extends.refl (o : Outline) : Extends o [] o.nesting o := ⟨(List.append_nil _).symm, rfl⟩

theorem Extends.trans {o'' : Outline} (h : Extends o texts p o') (h' : Extends o' texts' q o'') :
    Extends o (texts ++ texts') q o'' :=
  ⟨by rw [h'.texts, h.texts, List.append_assoc], h'.nesting⟩

theorem extends_put (o : Outline) (output : Output) :
    Extends o output.text?.toList o.nesting (o.put output) := ⟨Output.texts_append _ _, rfl⟩

theorem extends_markup (o : Outline) (text : Text) :
    Extends o [] o.nesting (o.put (.markup text)) := extends_put o (.markup text)

theorem write_markup (collapse : Bool) (o : Outline) (text : Text) :
    (o.draft collapse).write text = (o.put (.markup text)).draft collapse := by
  simp only [draft, put, Draft.write, Output.assemble_append, Output.kinds_append, Output.add,
    Output.kind?, Option.toList_none, List.append_nil]

theorem write_literal (collapse : Bool) (o : Outline) (setting : Setting) (text : Text) :
    (o.draft collapse).write (setting.write collapse text) =
      (o.put (.literal setting text)).draft collapse := by
  simp only [draft, put, Draft.write, Output.assemble_append, Output.kinds_append, Output.add,
    Output.kind?, Option.toList_none, List.append_nil]

/-! ### The same with and without collapsing -/

/-- With and without collapsing there is the same error, or the same good result as `view` shows
it. -/
def Uniform {α β : Type} (view : Bool → α → β) (x : Bool → Except Draft.Failure β)
    (good : α → Prop) : Prop :=
  ∃ r : Except Draft.Failure α, (∀ collapse, x collapse = r.map (view collapse)) ∧
    ∀ a, r = .ok a → good a

section Uniform

variable {α β γ δ : Type} {view : Bool → α → β} {view' : Bool → γ → δ}
  {x : Bool → Except Draft.Failure β} {good good' : α → Prop} {fine : γ → Prop}

theorem Uniform.ok {a : α} (h : good a) :
    Uniform view (fun collapse => .ok (view collapse a)) good :=
  ⟨.ok a, fun _ => rfl, fun _ same => Except.ok.inj same ▸ h⟩

theorem Uniform.error (failure : Draft.Failure) : Uniform view (fun _ => .error failure) good :=
  ⟨.error failure, fun _ => rfl, fun _ same => by cases same⟩

theorem Uniform.bind {f : Bool → β → Except Draft.Failure δ} (h : Uniform view x good)
    (next : ∀ a, good a → Uniform view' (fun collapse => f collapse (view collapse a)) fine) :
    Uniform view' (fun collapse => x collapse >>= f collapse) fine := by
  obtain ⟨r, same, fits⟩ := h
  cases r with
  | error failure =>
    refine ⟨.error failure, fun collapse => ?_, fun _ same => by cases same⟩
    show x collapse >>= f collapse = _
    rw [same collapse]
    rfl
  | ok a =>
    obtain ⟨r, same', fits'⟩ := next a (fits a rfl)
    refine ⟨r, fun collapse => ?_, fits'⟩
    show x collapse >>= f collapse = _
    rw [same collapse]
    exact same' collapse

theorem Uniform.mono (h : Uniform view x good) (le : ∀ a, good a → good' a) :
    Uniform view x good' := by
  obtain ⟨r, same, fits⟩ := h
  exact ⟨r, same, fun a found => le a (fits a found)⟩

theorem Uniform.congr {x' : Bool → Except Draft.Failure β} (h : Uniform view x' good)
    (same : ∀ collapse, x collapse = x' collapse) : Uniform view x good := by
  rwa [show x = x' from funext same]

end Uniform

theorem uniform_pushSlot (o : Outline) (slot : Nat) (kind : SlotKind) :
    Uniform draft (fun collapse => (o.draft collapse).pushSlot slot kind)
      (Extends o [] o.nesting) := by
  by_cases next : slot = (Output.kinds o.outputs).length
  · refine ⟨.ok { o.put (.slot kind) with notes := o.notes ++ [.classified slot kind] },
      fun collapse => ?_, fun a same => ?_⟩
    · have isNext : slot = (o.draft collapse).slots.length := next
      simp only [Draft.pushSlot, if_pos isNext]
      simp only [Except.map, draft, put, Output.assemble_append, Output.kinds_append, Output.add,
        Output.kind?, Option.toList_some]
    · obtain rfl := Except.ok.inj same
      exact ⟨Output.texts_append _ _, rfl⟩
  · refine ⟨.error ⟨.slotOutOfOrder (Output.kinds o.outputs).length slot, o.notes⟩,
      fun collapse => ?_, fun a same => by cases same⟩
    have other : ¬slot = (o.draft collapse).slots.length := next
    simp only [Draft.pushSlot, if_neg other]
    rfl

/-- Markup and then another nesting. -/
theorem uniform_markup (o : Outline) (text : Text) (q : Nesting) :
    Uniform draft (fun collapse => .ok { (o.draft collapse).write text with
      openElements := q.enclosing, inSection := q.inSection }) (Extends o [] q) := by
  have written : Extends o [] q { o.put (.markup text) with nesting := q } :=
    ⟨(extends_markup o text).texts, rfl⟩
  simp only [write_markup]
  exact .ok written

/-! ### Tags -/

theorem uniform_pushAttribute (options : Options) (o : Outline) (slot : Nat) (name : Text) :
    Uniform draft (fun collapse => Draft.pushAttribute (options.collapsing collapse)
      (o.draft collapse) slot name) (Extends o [] o.nesting) := by
  have quoted (kind : SlotKind) : Uniform draft (fun collapse =>
      ((o.draft collapse).write (Draft.attributeOpening name)).pushSlot slot kind >>=
        fun d => pure (d.write ['"'])) (Extends o [] o.nesting) := by
    simp only [write_markup]
    refine (uniform_pushSlot (o.put _) slot kind).bind fun a pushed => ?_
    simp only [write_markup]
    exact .ok (((extends_markup o _).trans pushed).trans (pushed.nesting ▸ extends_markup a _))
  have kinds (collapse : Bool) : Draft.attributeKind (options.collapsing collapse) name =
      Draft.attributeKind options name := rfl
  simp only [Draft.pushAttribute, kinds]
  cases Draft.attributeKind options name with
  | boolean name => exact uniform_pushSlot o slot (.boolean name)
  | _ => exact quoted _

theorem uniform_pushAttributes (options : Options) (o : Outline) (slotted : List (Nat × Text)) :
    Uniform draft (fun collapse => Draft.pushAttributes (options.collapsing collapse)
      (o.draft collapse) slotted) (Extends o [] o.nesting) := by
  induction slotted generalizing o with
  | nil => exact .ok (.refl o)
  | cons entry rest ih =>
    refine (uniform_pushAttribute options o entry.1 entry.2).bind fun a first => ?_
    exact (ih a).mono fun b later => first.trans (first.nesting ▸ later)

theorem uniform_writeLiterals (s : Sentinel) (o : Outline) (attributes : List Attribute) :
    Uniform (fun collapse (p : Outline × List (Nat × Text)) => (p.1.draft collapse, p.2))
      (fun collapse => Draft.writeLiterals s (o.draft collapse) attributes)
      (fun p => Extends o [] o.nesting p.1) := by
  induction attributes generalizing o with
  | nil => exact .ok (a := (o, [])) (.refl o)
  | cons a rest ih =>
    simp only [Draft.writeLiterals]
    cases s.firstSlotIn? a.name with
    | some slot => exact .error ⟨_, o.notes⟩
    | none =>
      cases s.slotOf? a.value with
      | some slot =>
        refine (ih o).bind fun p later => ?_
        exact .ok (a := (p.1, Draft.insertSlotted (slot, a.name) p.2)) later
      | none =>
        cases s.firstSlotIn? a.value with
        | some slot => exact .error ⟨_, o.notes⟩
        | none =>
          simp only [write_markup]
          exact (ih (o.put _)).mono fun p later => (extends_markup o _).trans later

theorem uniform_openTag (s : Sentinel) (options : Options) (o : Outline) (name : Text)
    (attributes : List Attribute) :
    Uniform draft (fun collapse => Draft.openTag s (options.collapsing collapse) (o.draft collapse)
      name attributes) (Extends o [] (o.nesting.enter name)) := by
  simp only [Draft.openTag]
  cases s.firstSlotIn? name with
  | some slot => exact .error ⟨_, o.notes⟩
  | none =>
    simp only [write_markup]
    refine (uniform_writeLiterals s (o.put _) attributes).bind fun p literal => ?_
    refine (uniform_pushAttributes options p.1 p.2).bind fun a pushed => ?_
    have tag : Extends o [] o.nesting a :=
      ((extends_markup o _).trans literal).trans (literal.nesting ▸ pushed)
    have entered : Uniform draft _ (Extends o [] (o.nesting.enter name)) :=
      (uniform_markup a ['>'] (o.nesting.enter name)).mono fun b last => tag.trans last
    refine entered.congr fun collapse => congrArg Except.ok ?_
    unfold Nesting.enter
    rw [← tag.nesting]
    split <;> rfl

theorem uniform_closeTag (s : Sentinel) (o : Outline) {name : Text} {q : Nesting}
    (left : o.nesting.leave? name = some q) :
    Uniform draft (fun collapse => Draft.closeTag s (o.draft collapse) name) (Extends o [] q) := by
  simp only [Draft.closeTag]
  cases s.firstSlotIn? name with
  | some slot => exact .error ⟨_, o.notes⟩
  | none =>
    unfold Nesting.leave? at left
    split at left
    · rename_i void
      obtain rfl := Option.some.inj left
      simp only [if_pos void]
      exact .ok (.refl o)
    · rename_i solid
      split at left
      · rename_i innermost
        obtain rfl := Option.some.inj left
        have closed : Draft.closeElement name o.nesting.enclosing = o.nesting.enclosing.tail := by
          rw [← List.cons_head?_tail innermost]
          exact Draft.closeElement_head name _
        simp only [if_neg solid]
        refine (uniform_markup o (['<', '/'] ++ name ++ ['>']) _).congr fun collapse =>
          congrArg Except.ok ?_
        rw [← closed]
        rfl
      · cases left

/-! ### Text -/

theorem keepsText_draft (collapse : Bool) (o : Outline) : (o.draft collapse).keepsText =
    (o.nesting.inSection || o.nesting.enclosing.head?.any Nesting.isVerbatim) := by
  have inside (name : Text) : (o.draft collapse).isInside name =
      (o.nesting.enclosing.head? == some name) := rfl
  rw [Draft.keepsText, inside, inside, Bool.or_assoc]
  cases o.nesting.enclosing.head? with
  | none => rfl
  | some name => rfl

variable {options : Options}

/-- Literal text is written as it is, escaped, or collapsed and escaped, as its nesting says. -/
theorem literalText_draft (collapse : Bool) {o : Outline} (solid : o.nesting.Solid) (text : Text) :
    Draft.literalText (options.collapsing collapse) (o.draft collapse) text =
      o.nesting.setting.write collapse text := by
  rw [Draft.literalText, keepsText_draft, Nesting.setting]
  split
  · rfl
  · rename_i escaped
    have outside : o.nesting.inSection = false := by
      simp only [Bool.or_eq_true, not_or, Bool.not_eq_true] at escaped
      exact escaped.1
    have kept : (o.draft collapse).keepsBlanks =
        o.nesting.enclosing.any Nesting.isPreformatted := by
      rw [← solid.any_isPreformatted]
      show (o.nesting.inSection || _) = _
      rw [outside]
      rfl
    rw [kept, Text.collapseBlanks_eq_collapsed]
    show (if (collapse && !_) = true then _ else _) = _
    cases o.nesting.enclosing.any Nesting.isPreformatted <;> cases collapse <;> rfl

/-- So is a text that goes through minifiers, if these leave every text as it is. -/
theorem plainText_draft (script : ∀ text, options.minifyScript text = .ok text)
    (style : ∀ text, options.minifyStyle text = .ok text) (collapse : Bool) {o : Outline}
    (solid : o.nesting.Solid) (text : Text) :
    Draft.plainText (options.collapsing collapse) (o.draft collapse) text =
      (o.put (.literal o.nesting.setting text)).draft collapse := by
  rw [← write_literal, ← @literalText_draft options collapse o solid text]
  have verbatim (kept : (o.draft collapse).keepsText = true) :
      Draft.literalText (options.collapsing collapse) (o.draft collapse) text = text := by
    rw [Draft.literalText, if_pos kept]
  unfold Draft.plainText
  split
  · rename_i inside
    have inside := (Bool.and_eq_true_iff.mp inside).2
    rw [verbatim (by rw [Draft.keepsText, inside, Bool.or_true, Bool.true_or]), Draft.minify,
      show (options.collapsing collapse).minifyScript text = .ok text from script text]
  · split
    · rename_i inside
      have inside := (Bool.and_eq_true_iff.mp inside).2
      rw [verbatim (by rw [Draft.keepsText, inside, Bool.or_true]), Draft.minify,
        show (options.collapsing collapse).minifyStyle text = .ok text from style text]
    · rfl

theorem uniform_pieces (options : Options) {o : Outline} (solid : o.nesting.Solid)
    (parts : List Sentinel.Piece) :
    Uniform draft
      (fun collapse => Draft.pieces (options.collapsing collapse) (o.draft collapse) parts)
      (Extends o (o.nesting.literals parts) o.nesting) := by
  induction parts generalizing o with
  | nil => exact .ok (.refl o)
  | cons piece rest ih =>
    cases piece with
    | literal text =>
      simp only [Draft.pieces, literalText_draft _ solid, write_literal]
      exact (ih (o := o.put _) solid).mono fun a later => (extends_put o _).trans later
    | slot slot =>
      refine (uniform_pushSlot o slot .content).bind fun a pushed => ?_
      have same : a.nesting = o.nesting := pushed.nesting
      exact (ih (same ▸ solid)).mono fun b later => pushed.trans (same ▸ later)

section Events

variable (script : ∀ text, options.minifyScript text = .ok text)
  (style : ∀ text, options.minifyStyle text = .ok text)

include script style

theorem uniform_text (s : Sentinel) {o : Outline} (solid : o.nesting.Solid) (content : Text) :
    Uniform draft
      (fun collapse => Draft.text s (options.collapsing collapse) (o.draft collapse) content)
      (Extends o (o.nesting.literals (s.split content)) o.nesting) := by
  unfold Draft.text
  split
  · rename_i piece single
    rw [single, Sentinel.literal_of_split single]
    simp only [plainText_draft script style _ solid]
    exact .ok (extends_put o (.literal o.nesting.setting content))
  · exact uniform_pieces options solid _

/-- One event adds its literal texts, and leads to the nesting after it. -/
theorem uniform_take (s : Sentinel) {o : Outline} (solid : o.nesting.Solid) {event : Event}
    {q : Nesting} (next : o.nesting.after? event = some q) :
    Uniform draft
      (fun collapse => Draft.take s (options.collapsing collapse) (o.draft collapse) event)
      (Extends o (o.nesting.textsOf s event) q) := by
  cases event with
  | openTag name attributes =>
    obtain rfl := Option.some.inj next
    exact uniform_openTag s options o name attributes
  | closeTag name => exact uniform_closeTag s o next
  | text content =>
    obtain rfl := Option.some.inj next
    exact uniform_text script style s solid content
  | comment data =>
    obtain rfl := Option.some.inj next
    simp only [Draft.take, Draft.comment]
    cases s.slotOf? data with
    | some slot => exact uniform_pushSlot o slot .content
    | none =>
      cases s.firstSlotIn? data with
      | some slot => exact .error ⟨_, o.notes⟩
      | none => exact uniform_markup o _ o.nesting
  | sectionStart =>
    obtain rfl := Option.some.inj next
    exact uniform_markup o _ { o.nesting with inSection := true }
  | sectionEnd =>
    obtain rfl := Option.some.inj next
    exact uniform_markup o _ { o.nesting with inSection := false }
  | instruction name data =>
    obtain rfl := Option.some.inj next
    exact uniform_markup o _ o.nesting
  | doctype name =>
    obtain rfl := Option.some.inj next
    exact uniform_markup o _ o.nesting
  | endOfInput =>
    obtain rfl := Option.some.inj next
    have finished (collapse : Bool) : ({ o.draft collapse with
        current := [],
        chunks := (o.draft collapse).chunks ++ [(o.draft collapse).current] } : Draft) =
        (o.put .finish).draft collapse := by
      simp only [draft, put, Output.assemble_append, Output.kinds_append, Output.add, Output.kind?,
        Option.toList_none, List.append_nil]
    simp only [Draft.take, finished]
    exact .ok (extends_put o .finish)

/-- Events that nest properly add their literal texts one after the other. -/
theorem uniform_takeAll (s : Sentinel) {o : Outline} (solid : o.nesting.Solid) {events : List Event}
    (proper : o.nesting.isProper events = true) :
    Uniform draft
      (fun collapse => Draft.takeAll s (options.collapsing collapse) (o.draft collapse) events)
      (fun o' => Output.texts o'.outputs = Output.texts o.outputs ++ o.nesting.texts s events) := by
  induction events generalizing o with
  | nil => exact .ok (List.append_nil _).symm
  | cons event rest ih =>
    rw [Nesting.isProper] at proper
    cases next : o.nesting.after? event with
    | none =>
      rw [next] at proper
      cases proper
    | some q =>
      rw [next] at proper
      refine (uniform_take script style s solid next).bind fun a taken => ?_
      obtain rfl := taken.nesting
      refine (ih (solid.after next) proper).mono fun b later => ?_
      rw [later, taken.texts, Nesting.texts, next, List.append_assoc]

end Events

/-! ### Templates -/

/-- The outputs of an outline with the expected number of slots and one chunk more. -/
def plan (expected : Nat) (o : Outline) : Except CompileError (List Output) :=
  if (Output.kinds o.outputs).length = expected ∧
      (Output.assemble false o.outputs).1.length = (Output.kinds o.outputs).length + 1
  then .ok o.outputs
  else .error (.missingSlots expected (Output.kinds o.outputs).length)

theorem ofDraft_draft (expected : Nat) (o : Outline) (collapse : Bool) :
    (Template.ofDraft expected (o.draft collapse)).result.map (fun t => (t.chunks, t.slots)) =
      (o.plan expected).map fun outputs =>
        ((Output.assemble collapse outputs).1, Output.kinds outputs) := by
  have length : (o.draft collapse).chunks.length = (Output.assemble false o.outputs).1.length :=
    Output.length_assemble collapse false o.outputs
  by_cases count : (o.draft collapse).slots.length = expected
  · rw [Template.ofDraft, if_pos count, plan]
    by_cases parity : (o.draft collapse).chunks.length = (o.draft collapse).slots.length + 1
    · rw [Template.ofParts?, dif_pos parity, if_pos ⟨count, length.symm.trans parity⟩]
      rfl
    · rw [Template.ofParts?, dif_neg parity, if_neg fun both => parity (length.trans both.2)]
      rfl
  · rw [Template.ofDraft, if_neg count, plan, if_neg fun both => count both.1]
    rfl

theorem outputs_of_plan {expected : Nat} {o : Outline} {outputs : List Output}
    (h : o.plan expected = .ok outputs) : outputs = o.outputs := by
  unfold plan at h
  split at h
  · exact (Except.ok.inj h).symm
  · cases h

end Outline

open Outline in
/-- Where every end tag closes the innermost open element and minifiers leave texts as they are,
compiling goes the same way with and without collapsing: to the same error, or to the same slots and
from the same outputs. Their literal texts are those of the events, each with its setting, and only
ordinary ones are written differently: with one space for each run of white space. -/
theorem Template.compile_collapsing (s : Sentinel) (options : Options) (source : EventSource)
    (segments : List Text) (script : ∀ text, options.minifyScript text = .ok text)
    (style : ∀ text, options.minifyStyle text = .ok text)
    (proper : Nesting.start.isProper (source (s.join segments)).events = true) :
    ∃ plan : Except CompileError (List Output),
      (∀ outputs, plan = .ok outputs →
        Output.texts outputs = Nesting.start.texts s (source (s.join segments)).events) ∧
      ∀ collapse, (compile s (options.collapsing collapse) source segments).result.map
          (fun t => (t.chunks, t.slots)) =
        plan.map fun outputs => ((Output.assemble collapse outputs).1, Output.kinds outputs) := by
  obtain ⟨r, taken, fits⟩ := uniform_takeAll script style s (o := empty) Nesting.solid_start proper
  have report (collapse : Bool) : (compile s (options.collapsing collapse) source segments).result =
      (ofReport s (options.collapsing collapse) (segments.length - 1)
        (source (s.join segments))).result := rfl
  have whole (collapse : Bool) : Draft.takeAll s (options.collapsing collapse) Draft.empty
      (source (s.join segments)).events = r.map (draft collapse) := taken collapse
  simp only [report, ofReport, whole]
  cases r with
  | error failure =>
    refine ⟨.error failure.error, fun _ same => ?_, fun _ => rfl⟩
    cases same
  | ok o =>
    cases (source (s.join segments)).failure with
    | some reason =>
      refine ⟨.error (.unreadable reason), fun _ same => ?_, fun _ => rfl⟩
      cases same
    | none =>
      refine ⟨o.plan (segments.length - 1), fun outputs planned => ?_, ofDraft_draft _ o⟩
      rw [outputs_of_plan planned]
      exact fits o rfl

/-- Two texts with a slot between them, and one that is kept. -/
theorem Template.compile_collapsing_pre :
    let segments := ["<pre>a  b</pre><p>c \n".toList, " d</p>".toList]
    (compile simplest ({} : Options) Event.source segments).result.map (fun t => t.chunks) =
      .ok ["<pre>a  b</pre><p>c \n".toList, " d</p>".toList] ∧
    (compile simplest ({ collapse := true } : Options) Event.source segments).result.map
      (fun t => t.chunks) = .ok ["<pre>a  b</pre><p>c ".toList, " d</p>".toList] ∧
    ∃ plan : Except CompileError (List Output),
      (∀ outputs, plan = .ok outputs → Output.texts outputs =
        [(.preformatted, "a  b".toList), (.ordinary, "c \n".toList), (.ordinary, " d".toList)]) ∧
      ∀ collapse, (compile simplest ({ collapse } : Options) Event.source segments).result.map
          (fun t => (t.chunks, t.slots)) =
        plan.map fun outputs => ((Output.assemble collapse outputs).1, Output.kinds outputs) := by
  refine ⟨by decide +kernel, by decide +kernel, ?_⟩
  have texts : Nesting.start.texts simplest (Event.source (simplest.join
      ["<pre>a  b</pre><p>c \n".toList, " d</p>".toList])).events =
    [(.preformatted, "a  b".toList), (.ordinary, "c \n".toList), (.ordinary, " d".toList)] := by
    decide +kernel
  rw [← texts]
  exact compile_collapsing simplest {} Event.source _ (fun _ => rfl) (fun _ => rfl)
    (by decide +kernel)

end HtmlTemplate
