import HtmlTemplate.Proofs.Markup.Names
import HtmlTemplate.Proofs.Template.Page
import HtmlTemplate.Proofs.Template.Pushes
import HtmlTemplate.Proofs.Template.Sight

/-!
# Markers that fit

The markers of a skeleton fit (`Sentinel.Fits`) if the tokenizer takes each of them, with what is
put around it, as a comment, as text of an element without markup, or as a value that it will tell
of. A skeleton compiles if its markers fit and no segment contains the token
(`Template.compile_of_fits`).
-/

namespace HtmlTemplate

variable {s : Sentinel} {slot : Nat}

/-! ## How markers are read -/

namespace State

variable {state middle next : State} {u v : Text} {tokens others : List Token} {c : Char}

/-- A text that is read completes tokens and leads to a state. -/
structure Reads (state : State) (u : Text) (tokens : List Token) (next : State) : Prop where
  told : state.emitted u = tokens
  reached : state.after u = next

namespace Reads

theorem cons (h : Reads middle u tokens next) (here : state.step c = (middle, others)) :
    Reads state (c :: u) (others ++ tokens) next := by
  constructor
  · rw [emitted, here, h.told]
  · rw [after, here, h.reached]

/-- A character with which nothing is told of. -/
theorem silent (here : state.step c = (middle, [])) (h : Reads middle u tokens next) :
    Reads state (c :: u) tokens next := h.cons here

theorem append (h : Reads state u tokens middle) (h' : Reads middle v others next) :
    Reads state (u ++ v) (tokens ++ others) next := by
  constructor
  · rw [emitted_append, h.told, h.reached, h'.told]
  · rw [after_append, h.reached, h'.reached]

/-- Texts whose characters are told of. -/
theorem characters_append (h : Reads state u (Token.characters u) middle)
    (h' : Reads middle v (Token.characters v) next) :
    Reads state (u ++ v) (Token.characters (u ++ v)) next := by
  have both := h.append h'
  rw [Token.characters, Token.characters, ← List.map_append] at both
  exact both

theorem stay (each : ∀ c ∈ u, state.step c = (state, [.character c])) :
    Reads state u (Token.characters u) state := by
  induction u with
  | nil => exact ⟨rfl, rfl⟩
  | cons c u ih =>
    exact (ih fun d member => each d (List.mem_cons_of_mem c member)).cons
      (each c List.mem_cons_self)

/-- Characters that are written in a way that each of them is told of. -/
theorem flatMap {written : Char → Text}
    (each : ∀ c ∈ u, Reads state (written c) [.character c] state) :
    Reads state (u.flatMap written) (Token.characters u) state := by
  induction u with
  | nil => exact ⟨rfl, rfl⟩
  | cons c u ih =>
    have later := ih fun d member => each d (List.mem_cons_of_mem c member)
    exact (each c List.mem_cons_self).append later

theorem run (h : Reads state u tokens next) (rest : Text) :
    state.run (u ++ rest) = tokens ++ next.run rest := by
  rw [run_append, h.told, h.reached]

end Reads

end State

/-! ### Comments -/

theorem Sentinel.Inert.facts {c : Char} (h : Inert c) : c ≠ '-' ∧ c ≠ '>' ∧ State.kept c = c := by
  have others : ∀ d ∈ ['-', '>'], c ≠ d := h.ne_of_mem (by decide)
  exact ⟨others '-' (by simp), others '>' (by simp), State.kept_of_ne h.ne.2.2.1⟩

theorem State.reads_commentBody {u : Text} (inert : ∀ c ∈ u, Sentinel.Inert c) (data : Text) :
    Reads (.comment .body data) u [] (.comment .body (data ++ u)) := by
  induction u generalizing data with
  | nil =>
    rw [List.append_nil]
    exact ⟨rfl, rfl⟩
  | cons c u ih =>
    obtain ⟨dash, _, kept⟩ := (inert c List.mem_cons_self).facts
    have later := ih (fun d member => inert d (List.mem_cons_of_mem c member)) (data ++ [c])
    rw [List.append_assoc] at later
    refine .silent ?_ later
    show stepCommentBody data c = _
    rw [stepCommentBody, if_neg dash, kept]

/-- A comment marker after its less-than sign. -/
def Sentinel.commentTail (s : Sentinel) (slot : Nat) : Text :=
  ['!', '-', '-'] ++ (s.attributeMarker slot ++ ['-', '-', '>'])

theorem Sentinel.commentMarker_eq (s : Sentinel) (slot : Nat) :
    s.commentMarker slot = '<' :: s.commentTail slot := by
  simp [commentMarker, commentTail]

theorem State.reads_commentTail (s : Sentinel) (slot : Nat) :
    Reads .tagOpen (s.commentTail slot) [.comment (s.attributeMarker slot)] .data := by
  have body : Reads (.comment .start []) (s.attributeMarker slot) []
      (.comment .body (s.attributeMarker slot)) := by
    have inert : ∀ c ∈ s.markerTail slot, Sentinel.Inert c := by
      intro c member
      have inside : c ∈ s.attributeMarker slot := by
        rw [s.attributeMarker_eq]
        exact List.mem_cons_of_mem _ member
      exact Sentinel.inert_of_mem inside
    rw [s.attributeMarker_eq]
    exact .silent rfl (reads_commentBody inert ['h'])
  have opening : Reads .tagOpen ['!', '-', '-'] [] (.comment .start []) := ⟨rfl, rfl⟩
  have ending : Reads (.comment .body (s.attributeMarker slot)) ['-', '-', '>']
      [.comment (s.attributeMarker slot)] .data := ⟨rfl, rfl⟩
  exact opening.append (body.append ending)

/-- In ordinary text a comment marker is read as a comment. -/
theorem State.reads_commentMarker {state : State} {before : Text}
    (less : state.step '<' = (.tagOpen, Token.characters before)) (s : Sentinel) (slot : Nat) :
    Reads state (s.commentMarker slot)
      (Token.characters before ++ [.comment (s.attributeMarker slot)]) .data := by
  rw [s.commentMarker_eq]
  exact (reads_commentTail s slot).cons less

/-! ### Content without tags -/

/-- The content outside any comment-like passage. -/
def RawContent.calm : RawContent → RawContent
  | plain element => .plain element
  | script element _ => .script element .plain

namespace State

open RawContent

theorem reads_rawTail {content : RawContent} (held : content.Held) (s : Sentinel) (slot : Nat) :
    Reads (rawLess content) (s.commentTail slot) (Token.characters ('<' :: s.commentTail slot))
      (raw content.calm) := by
  have inert : ∀ c ∈ s.attributeMarker slot, Sentinel.Inert c := fun _ => Sentinel.inert_of_mem
  -- In a script the dashes begin and end a comment-like passage.
  have passage : ∀ element, Reads (raw (.script element (.escaped 2)))
      (s.attributeMarker slot ++ ['-', '-', '>'])
      (Token.characters (s.attributeMarker slot ++ ['-', '-', '>']))
      (raw (.script element .plain)) := by
    intro element
    rw [s.attributeMarker_eq] at inert ⊢
    have stays : Reads (raw (.script element (.escaped 0))) (s.markerTail slot)
        (Token.characters (s.markerTail slot)) (raw (.script element (.escaped 0))) := by
      refine .stay fun c member => ?_
      have here := inert c (List.mem_cons_of_mem _ member)
      obtain ⟨dash, greater, kept⟩ := here.facts
      show stepScriptEscaped element 0 c = _
      simp only [stepScriptEscaped, dash, here.ne.2.1, greater, kept, false_and, if_false]
    have ending : Reads (raw (.script element (.escaped 0))) ['-', '-', '>']
        (Token.characters ['-', '-', '>']) (raw (.script element .plain)) := ⟨rfl, rfl⟩
    have first : State.step (raw (.script element (.escaped 2))) 'h' =
        (raw (.script element (.escaped 0)), [.character 'h']) := rfl
    exact (stays.characters_append ending).cons first
  have split : '<' :: s.commentTail slot =
      ['<', '!', '-', '-'] ++ (s.attributeMarker slot ++ ['-', '-', '>']) := rfl
  rw [split, Token.characters, List.map_append]
  cases held with
  | plain element =>
    have stays : Reads (raw (.plain element)) (s.attributeMarker slot)
        (Token.characters (s.attributeMarker slot)) (raw (.plain element)) := by
      refine .stay fun c member => ?_
      have here := inert c member
      show stepRaw (.plain element) c = _
      simp only [stepRaw, here.ne.1, here.ne.2.1, here.facts.2.2, if_false]
    have opening : Reads (rawLess (.plain element)) ['!', '-', '-']
        (Token.characters ['<', '!', '-', '-']) (raw (.plain element)) := ⟨rfl, rfl⟩
    have ending : Reads (raw (.plain element)) ['-', '-', '>'] (Token.characters ['-', '-', '>'])
        (raw (.plain element)) := ⟨rfl, rfl⟩
    exact opening.append (stays.characters_append ending)
  | outside element =>
    have opening : Reads (rawLess (.script element .plain)) ['!', '-', '-']
        (Token.characters ['<', '!', '-', '-']) (raw (.script element (.escaped 2))) := ⟨rfl, rfl⟩
    exact opening.append (passage element)
  | inside element dashes =>
    have opening : Reads (rawLess (.script element (.escaped dashes))) ['!', '-', '-']
        (Token.characters ['<', '!', '-', '-']) (raw (.script element (.escaped 2))) := ⟨rfl, rfl⟩
    exact opening.append (passage element)

/-- A less-than sign in content without tags may begin the end tag. -/
theorem stepRaw_less {content : RawContent} (isOpen : content.Open) :
    ∃ content', stepRaw content '<' = (rawLess content', []) ∧ content'.Held ∧
      content'.calm = content.calm := by
  cases content with
  | plain element => exact ⟨_, rfl, .plain element, rfl⟩
  | script element phase =>
    cases phase with
    | plain => exact ⟨_, rfl, .outside element, rfl⟩
    | opening dashes => exact ⟨_, rfl, .outside element, rfl⟩
    | escaped dashes => exact ⟨_, rfl, .inside element 0, rfl⟩
    | entering word => exact ⟨_, rfl, .inside element 0, rfl⟩
    | nested dashes => exact isOpen.elim
    | nestedLess => exact isOpen.elim
    | leaving word => exact isOpen.elim

/-- A less-than sign ends whatever has begun in content without tags. -/
theorem Raw.step_less {state : State} {content : RawContent} {pending : Option Reference}
    {held : Text} (h : Raw state content pending held) (isOpen : content.Open) : ∃ content' before,
      state.step '<' = (rawLess content', Token.characters before) ∧ content'.Held ∧
        content'.calm = content.calm := by
  obtain ⟨content', next, isHeld, same⟩ := stepRaw_less isOpen
  have after : ∀ {before},
      state.step '<' = emitting (Token.characters before) (stepRaw content '<') →
      state.step '<' = (rawLess content', Token.characters before) := by
    intro before step
    rw [step, next, emitting, List.append_nil]
  cases h with
  | plain => exact ⟨content', [], next, isHeld, same⟩
  | less =>
    refine ⟨content', ['<'], after ?_, isHeld, same⟩
    show stepRawLess content '<' = _
    unfold stepRawLess
    cases content with
    | plain element => rfl
    | script element phase => cases phase <;> rfl
  | endOpen => exact ⟨content', ['<', '/'], after rfl, isHeld, same⟩
  | endName _ letters =>
    refine ⟨content', '<' :: '/' :: letters, after ?_, isHeld, same⟩
    show stepRawEndName content letters '<' = _
    have letter : Text.isLetter '<' = false := by decide
    have blank : Text.isBlank '<' = false := by decide
    have slash : ('<' : Char) ≠ '/' := by decide
    have greater : ('<' : Char) ≠ '>' := by decide
    simp only [stepRawEndName, letter, blank, slash, greater, and_false, if_false,
      Bool.false_eq_true]
  | reference element ref =>
    obtain ⟨text, ends⟩ := ref.step_of_mark (.inl rfl) false
    refine ⟨content', text, after ?_, isHeld, same⟩
    show stepReference (.raw element) ref '<' = _
    rw [stepReference, show (ReferenceTarget.raw element).inAttribute = false from rfl, ends]
    rfl

/-- In content without tags a comment marker is read as text. -/
theorem Raw.reads_commentMarker {state : State} {content : RawContent} {pending : Option Reference}
    {held : Text} (h : Raw state content pending held) (isOpen : content.Open) (s : Sentinel)
    (slot : Nat) : ∃ before, Reads state (s.commentMarker slot)
      (Token.characters (before ++ s.commentMarker slot)) (raw content.calm) := by
  obtain ⟨content', before, less, isHeld, same⟩ := h.step_less isOpen
  refine ⟨before, ?_⟩
  rw [s.commentMarker_eq, ← same, Token.characters, List.map_append]
  exact (reads_rawTail isHeld s slot).cons less

/-- Characters that begin no reference are kept in a value as they are. -/
theorem reads_literal {quote : Quote}
    (plain : ∀ c ∈ u, quote.ends c = false ∧ c ≠ '&' ∧ kept c = c) (tag : Tag) (name v : Text) :
    Reads (value tag name quote v) u [] (value tag name quote (v ++ u)) := by
  induction u generalizing v with
  | nil =>
    rw [List.append_nil]
    exact ⟨rfl, rfl⟩
  | cons c u ih =>
    obtain ⟨other, literal, same⟩ := plain c List.mem_cons_self
    have later := ih (fun d member => plain d (List.mem_cons_of_mem c member)) (v ++ [c])
    rw [List.append_assoc] at later
    refine .silent ?_ later
    have next := stepValue_eq tag name quote v literal
    rw [other, same] at next
    exact next

theorem reads_marker (s : Sentinel) (slot : Nat) (tag : Tag) (name : Text) (quote : Quote) :
    Reads (value tag name quote []) (s.attributeMarker slot) []
      (value tag name quote (s.attributeMarker slot)) := by
  refine reads_literal (fun c member => ?_) tag name []
  have inert : Sentinel.Inert c := Sentinel.inert_of_mem member
  exact ⟨inert.not_ends quote, inert.ne.1, inert.facts.2.2⟩

/-- In quotation marks of its own, a marker is a value. -/
theorem reads_quotedMarker (s : Sentinel) (slot : Nat) (tag : Tag) (name : Text) :
    Reads (beforeValue tag name) (['"'] ++ (s.attributeMarker slot ++ ['"'])) []
      (afterValue (tag.withAttribute name (s.attributeMarker slot))) := by
  have opening : Reads (beforeValue tag name) ['"'] [] (value tag name .double []) := ⟨rfl, rfl⟩
  have ending : Reads (value tag name .double (s.attributeMarker slot)) ['"'] []
      (afterValue (tag.withAttribute name (s.attributeMarker slot))) := ⟨rfl, rfl⟩
  exact opening.append ((reads_marker s slot tag name .double).append ending)

end State

/-! ## Skeletons -/

section Skeletons

variable (s) (options : Options)

/-- A marker in the marks of a comment is read as a comment or as text. -/
inductive State.TakesContent (slot : Nat) : State → State → Prop
  | comment {state : State} {before : Text} : state.Reads (s.commentMarker slot)
      (Token.characters before ++ [.comment (s.attributeMarker slot)]) .data →
      TakesContent slot state .data
  | text {state : State} {content : RawContent} {before : Text} : state.Reads (s.commentMarker slot)
      (Token.characters (before ++ s.commentMarker slot)) (.raw content) →
      TakesContent slot state (.raw content)

/-- A marker with what is put around it is read as the beginning of a value. -/
inductive State.TakesValue (slot : Nat) (name : Text) : State → Text × Text → State → Prop
  | assigned (tag : Tag) : TakesValue slot name (.beforeValue tag name) (['"'], ['"'])
      (.afterValue (tag.withAttribute name (s.attributeMarker slot)))
  | begun (tag : Tag) (quote : Quote) : TakesValue slot name (.value tag name quote []) ([], [])
      (.value tag name quote (s.attributeMarker slot))

/-- What is read begins with a start tag that has these values. -/
def Token.Tells (held : List (Nat × Text)) (tokens : List Token) : Prop :=
  ∃ element attributes selfClosing rest, tokens = .startTag element attributes selfClosing :: rest ∧
    ∀ entry ∈ held, (⟨entry.2, s.attributeMarker entry.1⟩ : Attribute) ∈ attributes

/-- The markers of a skeleton all fit where the tokenizer comes to them. -/
inductive Sentinel.Fits : State → Scan → Nat → List Text → List SlotKind → Prop
  | last (state : State) (scan : Scan) (slot : Nat) (segment : Text) :
      Fits state scan slot [segment] []
  | content {state next : State} {scan : Scan} {slot : Nat} {segment : Text} {rest : List Text}
      {kinds : List SlotKind} :
      edges (scan.feed segment) segment = (['<', '!', '-', '-'], ['-', '-', '>']) →
      State.TakesContent s slot (state.after (normalizeNewlines segment)) next →
      Fits next (s.scanAfter (scan.feed segment) segment) (slot + 1) rest kinds →
      Fits state scan slot (segment :: rest) (.content :: kinds)
  | value {state next : State} {scan : Scan} {slot : Nat} {segment : Text} {rest : List Text}
      {kinds : List SlotKind} (name : Text) :
      State.TakesValue s slot name (state.after (normalizeNewlines segment))
        (edges (scan.feed segment) segment) next →
      Token.Tells s [(slot, name)] (next.run (normalizeNewlines
        (s.joinFrom (s.scanAfter (scan.feed segment) segment) (slot + 1) rest))) →
      Fits next (s.scanAfter (scan.feed segment) segment) (slot + 1) rest kinds →
      Fits state scan slot (segment :: rest) (Draft.attributeKind options name :: kinds)

end Skeletons

section Compiled

variable {options : Options} {state next : State} {scan : Scan} {segment name : Text}
  {segments rest : List Text} {kinds : List SlotKind}

/-! ### What is read of a marker -/

theorem State.TakesValue.reads {around : Text × Text}
    (h : TakesValue s slot name state around next) :
    state.Reads (around.1 ++ (s.attributeMarker slot ++ around.2)) [] next := by
  cases h with
  | assigned tag => exact reads_quotedMarker s slot tag name
  | begun tag quote =>
    show Reads _ (s.attributeMarker slot ++ []) _ _
    rw [List.append_nil]
    exact reads_marker s slot tag name quote

theorem State.TakesContent.exists_reads (h : TakesContent s slot state next) :
    ∃ token tokens, state.Reads (s.commentMarker slot) (token :: tokens) next := by
  cases h with
  | @comment before reads => cases before <;> exact ⟨_, _, reads⟩
  | @text content before reads =>
    have some : before ++ s.commentMarker slot ≠ [] := by simp [s.commentMarker_eq]
    obtain ⟨c, rest, same⟩ := List.exists_cons_of_ne_nil some
    rw [same] at reads
    exact ⟨_, _, reads⟩

/-- A marker in content asks for its slot, and is no start tag. -/
theorem State.TakesContent.reads (h : TakesContent s slot state next) (options : Options)
    (word : slot < Text.wordBound) :
    ∃ tokens, state.Reads (s.commentMarker slot) tokens next ∧
      (∀ token ∈ tokens, token.names = []) ∧
      (∀ held rest, ¬ Token.Tells s held (tokens ++ rest)) ∧
      ∀ rest, ((slot, .content) :: Token.pushes s options rest).Sublist
        (Token.pushes s options (tokens ++ rest)) := by
  cases h with
  | @comment before reads =>
    refine ⟨_, reads, fun token member => ?_, fun held rest => ?_, fun rest => ?_⟩
    · rcases List.mem_append.mp member with member | member
      · exact Token.names_characters before token member
      · rw [List.mem_singleton.mp member]
        rfl
    · rintro ⟨element, attributes, selfClosing, tokens, same, _⟩
      cases before <;> cases same
    · rw [List.append_assoc, List.singleton_append, ← Token.pushes_comment word]
      exact Token.pushes_append s options _ _
  | @text content before reads =>
    refine ⟨_, reads, Token.names_characters _, fun held rest => ?_, fun rest => ?_⟩
    · rintro ⟨element, attributes, selfClosing, tokens, same, _⟩
      rw [s.commentMarker_eq] at same
      cases before <;> cases same
    · rw [Token.characters, List.map_append, List.append_assoc]
      refine List.Sublist.trans ?_ (Token.pushes_append s options _ _)
      rw [← Token.pushes_commentMarker word]
      exact .refl _

/-! ### Slots in their order -/

/-- What is told of at the beginning is asked for before the rest, unless it is told of only
there. -/
theorem Token.pushes_tells {held : List (Nat × Text)} {first others : List Token}
    {pairs : List (Nat × SlotKind)} (increasing : held.Pairwise fun e f => e.1 < f.1)
    (words : ∀ entry ∈ held, entry.1 < Text.wordBound)
    (h : held = [] ∨ Tells s held (first ++ others))
    (sub : pairs.Sublist (pushes s options others)) : first = [] ∧ Tells s held others ∨
      ((held.map fun entry => (entry.1, Draft.attributeKind options entry.2)) ++ pairs).Sublist
        (pushes s options (first ++ others)) := by
  rcases h with rfl | tells
  · exact .inr (sub.trans (pushes_append s options first others))
  · cases first with
    | nil => exact .inl ⟨rfl, tells⟩
    | cons token more =>
      obtain ⟨element, attributes, selfClosing, tokens, same, inside⟩ := tells
      obtain ⟨rfl, rfl⟩ := List.cons.inj same
      have later := sub.trans (pushes_append s options more others)
      exact .inr (((List.Sublist.refl _).append later).trans (pushes_startTag increasing
        (fun entry member => ⟨words entry member, inside entry member⟩) _))

theorem Sentinel.Fits.length (h : s.Fits options state scan slot segments kinds) :
    segments.length = kinds.length + 1 := by
  induction h with
  | last => rfl
  | content _ _ _ ih => rw [List.length_cons, List.length_cons, ih]
  | value _ _ _ _ ih => rw [List.length_cons, List.length_cons, ih]

theorem Sentinel.Fits.ne_nil (h : s.Fits options state scan slot segments kinds) :
    segments ≠ [] := by
  rintro rfl
  cases h

/-- What is read of a skeleton with its first marker. -/
theorem Sentinel.run_joinFrom {edge trail : Text} {tokens : List Token} (more : rest ≠ [])
    (edges : edges (scan.feed segment) segment = (edge, trail))
    (reads : (state.after (normalizeNewlines segment)).Reads
      (edge ++ (s.attributeMarker slot ++ trail)) tokens next) :
    state.run (normalizeNewlines (s.joinFrom scan slot (segment :: rest))) =
      state.emitted (normalizeNewlines segment) ++ (tokens ++ next.run (normalizeNewlines
        (s.joinFrom (s.scanAfter (scan.feed segment) segment) (slot + 1) rest))) := by
  rw [normalizeNewlines_joinFrom s scan slot segment more, State.run_append, edges, ← reads.run]
  simp only [List.append_assoc]

/-- Markers that fit are asked for in their order, after the values that have been read already. -/
theorem Sentinel.Fits.pushes (h : s.Fits options state scan slot segments kinds)
    (bound : slot + kinds.length ≤ Text.wordBound) {held : List (Nat × Text)}
    (increasing : held.Pairwise fun e f => e.1 < f.1) (below : ∀ entry ∈ held, entry.1 < slot)
    (tells : held = [] ∨
      Token.Tells s held (state.run (normalizeNewlines (s.joinFrom scan slot segments)))) :
    ((held.map fun entry => (entry.1, Draft.attributeKind options entry.2)) ++
      (List.range' slot kinds.length).zip kinds).Sublist (Token.pushes s options
        (state.run (normalizeNewlines (s.joinFrom scan slot segments)))) := by
  induction h generalizing held with
  | last state scan slot segment =>
    rcases tells with rfl | ⟨element, attributes, selfClosing, tokens, same, inside⟩
    · exact List.nil_sublist _
    · rw [same]
      exact ((List.Sublist.refl _).append (List.nil_sublist _)).trans
        (Token.pushes_startTag increasing
          (fun entry member => ⟨Nat.lt_of_lt_of_le (below entry member) bound, inside entry member⟩)
          tokens)
  | @content state next scan slot segment rest kinds marks takes fits ih =>
    rw [List.length_cons] at bound ⊢
    obtain ⟨tokens, reads, _, none, asks⟩ := takes.reads options (by omega)
    have marker : ['<', '!', '-', '-'] ++ (s.attributeMarker slot ++ ['-', '-', '>']) =
        s.commentMarker slot := by simp [commentMarker]
    rw [run_joinFrom fits.ne_nil marks (marker ▸ reads)] at tells ⊢
    have later := ih (by omega) .nil (List.forall_mem_nil _) (.inl rfl)
    have here := (List.Sublist.cons_cons (slot, SlotKind.content) later).trans (asks _)
    rcases Token.pushes_tells increasing (fun e member => Nat.lt_trans (below e member) (by omega))
      tells here with ⟨_, told⟩ | all
    · exact absurd told (none held _)
    · exact all
  | @value state next scan slot segment rest kinds name takes told fits ih =>
    rw [List.length_cons] at bound ⊢
    rw [run_joinFrom fits.ne_nil rfl takes.reads, List.nil_append] at tells ⊢
    have alone : ∀ entry ∈ [(slot, name)], entry.1 < slot + 1 :=
      List.forall_mem_singleton.mpr (Nat.lt_succ_self slot)
    have here := ih (by omega) (List.pairwise_singleton _ _) alone (.inr told)
    rcases Token.pushes_tells increasing (fun e member => Nat.lt_trans (below e member) (by omega))
      tells here with ⟨empty, before⟩ | all
    · -- The same start tag tells of the values before the slot and of its own.
      obtain ⟨element, attributes, selfClosing, tokens, same, inside⟩ := before
      obtain ⟨_, _, _, _, same', inside'⟩ := told
      rw [same] at same'
      cases same'
      have order : (held ++ [(slot, name)]).Pairwise fun e f => e.1 < f.1 :=
        List.pairwise_append.mpr ⟨increasing, List.pairwise_singleton _ _, fun entry member =>
          List.forall_mem_singleton.mpr (below entry member)⟩
      have later : ∀ entry ∈ held ++ [(slot, name)], entry.1 < slot + 1 :=
        List.forall_mem_append.mpr ⟨fun e member => Nat.lt_succ_of_lt (below e member), alone⟩
      have both := ih (by omega) order later (.inr ⟨element, attributes, selfClosing, tokens, same,
          List.forall_mem_append.mpr ⟨inside, inside'⟩⟩)
      rw [List.map_append, List.append_assoc] at both
      rw [empty, List.nil_append]
      exact both
    · exact all

/-! ### Names -/

theorem State.TakesContent.tidy (h : TakesContent s slot state next) (P : Text → Prop) :
    next.Tidy P [] := by
  cases h <;> trivial

theorem State.TakesValue.tidy {P : Text → Prop} {seen : Text} {around : Text × Text}
    (h : TakesValue s slot name state around next) (tidy : state.Tidy P seen) : next.Tidy P [] := by
  cases h with
  | assigned tag => exact tidy.1.withAttribute tidy.2 _
  | begun tag quote => exact tidy

/-- Where markers fit, no name reaches across one. -/
theorem Sentinel.Fits.names {P : Text → Prop} (h : s.Fits options state scan slot segments kinds)
    (bound : slot + kinds.length ≤ Text.wordBound)
    (known : ∀ segment ∈ segments, ∀ name,
      name <:+: State.inNames (normalizeNewlines segment) → P name)
    (tidy : state.Tidy P []) :
    ∀ token ∈ state.run (normalizeNewlines (s.joinFrom scan slot segments)),
      ∀ name ∈ token.names, P name := by
  induction h with
  | last state scan slot segment =>
    have whole : s.joinFrom scan slot [segment] = segment := rfl
    rw [whole, State.run_eq]
    refine List.forall_mem_append.mpr
      ⟨(State.tidy_after (known segment List.mem_cons_self) tidy).2, fun token member => ?_⟩
    rw [Token.names_finish _ token member]
    exact List.forall_mem_nil _
  | @content state next scan slot segment rest kinds marks takes fits ih =>
    rw [List.length_cons] at bound
    obtain ⟨tokens, reads, none, _⟩ := takes.reads options (by omega)
    have marker : ['<', '!', '-', '-'] ++ (s.attributeMarker slot ++ ['-', '-', '>']) =
        s.commentMarker slot := by simp [commentMarker]
    rw [run_joinFrom fits.ne_nil marks (marker ▸ reads)]
    refine List.forall_mem_append.mpr ⟨(State.tidy_after (known segment List.mem_cons_self) tidy).2,
      List.forall_mem_append.mpr ⟨fun token member => ?_, ih (by omega) (fun other member =>
        known other (List.mem_cons_of_mem segment member)) (takes.tidy P)⟩⟩
    rw [none token member]
    exact List.forall_mem_nil _
  | @value state next scan slot segment rest kinds name takes told fits ih =>
    rw [List.length_cons] at bound
    obtain ⟨tidy', tokens⟩ := State.tidy_after (known segment List.mem_cons_self) tidy
    rw [run_joinFrom fits.ne_nil rfl takes.reads, List.nil_append]
    exact List.forall_mem_append.mpr ⟨tokens, ih (by omega) (fun other member =>
      known other (List.mem_cons_of_mem segment member)) (takes.tidy tidy')⟩

theorem Event.named_ofTokens {tokens : List Token}
    (h : ∀ token ∈ tokens, ∀ name ∈ token.names, s.firstSlotIn? name = none) :
    ∀ event ∈ ofTokens tokens, event.Named s := by
  intro event member
  rcases mem_ofTokens member with ⟨text, rfl⟩ | ⟨token, inside, here⟩
  · trivial
  · have names := h token inside
    cases token with
    | startTag name attributes selfClosing =>
      have named : s.firstSlotIn? name = none := names name List.mem_cons_self
      rcases List.mem_cons.mp here with rfl | closing
      · refine ⟨named, fun a member => names a.name (List.mem_cons_of_mem name ?_)⟩
        exact List.mem_map_of_mem member
      · have same : event = .closeTag name := by cases selfClosing <;> simp_all
        rw [same]
        exact named
    | endTag name =>
      rw [List.mem_singleton.mp here]
      exact names name List.mem_cons_self
    | comment data =>
      replace here : event ∈ ofComment data := here
      unfold ofComment at here
      split at here
      · rcases List.mem_pair.mp here with rfl | rfl <;> trivial
      · simp only [List.mem_cons, List.not_mem_nil, or_false] at here
        rcases here with rfl | rfl | rfl <;> trivial
      · split at here <;> rw [List.mem_singleton.mp here] <;> trivial
    | _ =>
      rw [List.mem_singleton.mp here]
      trivial

/-- A segment without the token has no name with it. -/
theorem Sentinel.Absent.firstSlotIn?_of_name {segment name : Text} (absent : s.Absent segment)
    (inside : name <:+: State.inNames segment) : s.firstSlotIn? name = none := by
  refine Event.firstSlotIn?_of_count (Sentinel.count_eq_zero fun token => ?_)
  refine absent.readings .lowered (token.trans (inside.trans ?_))
  rw [Reading.textOf, Reading.read_lowered]
  exact (List.prefix_append _ _).isInfix

/-! ### Templates -/

/-- A skeleton compiles if its markers fit and its segments do not contain the token. -/
theorem Template.compile_of_fits
    (absent : ∀ segment ∈ segments, s.Absent (normalizeNewlines segment))
    (bound : segments.length ≤ Text.wordBound)
    (fits : s.Fits options .data Scan.start 0 segments kinds) :
    ∃ template, (compile s options Event.source segments).result = .ok template ∧
      template.slots = kinds := by
  have length := fits.length
  have known : ∀ segment ∈ segments, ∀ name, name <:+: State.inNames (normalizeNewlines segment) →
      s.firstSlotIn? name = none := fun segment member _ inside =>
    (absent segment member).firstSlotIn?_of_name inside
  refine compile_of_sublist absent fits.ne_nil (by omega)
    (Event.named_ofTokens (fits.names (by omega) known trivial)) ?_
  have pushes := fits.pushes (by omega) .nil (List.forall_mem_nil _) (.inl rfl)
  rw [List.range_eq_range']
  exact pushes

end Compiled

end HtmlTemplate
