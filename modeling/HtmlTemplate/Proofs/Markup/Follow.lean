import HtmlTemplate.Proofs.Markup.Trail

/-!
# The tokenizer follows a trail

`Follows` says for each state of the tokenizer what of the input is still to become part of a datum.
Reading a character keeps it (`follows_step`), and so does reading a whole text; at the end of the
input all data that tokens tell of are on the trail (`ended_from`).
-/

namespace HtmlTemplate

/-- What of a comment has been read, but not yet kept. -/
def CommentPhase.pending : CommentPhase → Text
  | start => []
  | startDash => ['-']
  | body => []
  | dash => ['-']
  | dashes => ['-', '-']
  | bang => ['-', '-', '!']

/-- Whether a character ends an attribute value. -/
def Quote.ends : Quote → Char → Bool
  | double, c => c == '"'
  | single, c => c == '\''
  | none, c => Text.isBlank c || c == '>'

/-- All characters that end attribute values of some kind. -/
def Quote.marks : Text := ['"', '\'', '>', ' ', '\t', '\n', '\x0c', '\r']

theorem Quote.mem_marks {quote : Quote} {c : Char} (h : quote.ends c = true) : c ∈ marks := by
  cases quote with
  | none =>
    simp only [ends, Text.isBlank, Bool.or_eq_true, beq_iff_eq] at h
    rcases h with ((((rfl | rfl) | rfl) | rfl) | rfl) | rfl <;> decide
  | _ =>
    rw [ends, beq_iff_eq] at h
    subst h
    decide

namespace State

/-- The end of an attribute value at a character that ends it. -/
def leaveValue (tag : Tag) (quote : Quote) (c : Char) : State × List Token :=
  match quote with
  | .none => if c = '>' then closeTag tag false else (beforeName tag, [])
  | _ => (afterValue tag, [])

theorem stepValue_eq (tag : Tag) (name : Text) (quote : Quote) (v : Text) {c : Char}
    (literal : c ≠ '&') :
    stepValue tag name quote v c =
      if quote.ends c then leaveValue (tag.withAttribute name v) quote c
      else (value tag name quote (v ++ [kept c]), []) := by
  unfold stepValue
  rw [if_neg literal]
  cases quote with
  | none =>
    by_cases blank : Text.isBlank c = true
    · have other : c ≠ '>' := by
        rintro rfl
        exact absurd blank (by decide)
      simp [Quote.ends, leaveValue, blank, other]
    · by_cases last : c = '>'
      · subst last
        simp [Quote.ends, leaveValue, show Text.isBlank '>' = false by decide]
      · simp [Quote.ends, blank, last]
  | _ => simp [Quote.ends, leaveValue]

theorem isDigit_of_ends {quote : Quote} {c : Char} (h : quote.ends c = true) :
    Text.isDigit c = false := by
  have none : ∀ c ∈ Quote.marks, Text.isDigit c = false := List.all_iff_forall_prop.mp (by decide)
  exact none c (Quote.mem_marks h)

end State

/-! ## The invariant -/

/-- The last text goes on. -/
def Textual (o : Origin) (g : Gathered) (data : List Datum) (input pending : Text) : Prop :=
  ∃ start, Within o true g.closed data start input g.run pending

/-- The last text has ended, and another datum is being read. -/
def Aside (o : Origin) (known data : List Datum) (input v pending : Text) : Prop :=
  ∃ start, Within o false known data start input v pending

/-- What of the input has been read of data, and what is pending, in a state of the tokenizer. -/
def Follows (o : Origin) (g : Gathered) (data : List Datum) (input : Text) : State → Prop
  | .data => Textual o g data input []
  | .raw _ => Textual o g data input []
  | .rawLess _ => Textual o g data input ['<']
  | .rawEndOpen _ => Textual o g data input ['<', '/']
  | .rawEndName _ letters => Textual o g data input ('<' :: '/' :: letters)
  | .reference .data ref => ∃ r, ref.Written r ∧ Textual o g data input ('&' :: r)
  | .reference (.raw _) ref => ∃ r, ref.Written r ∧ Textual o g data input ('&' :: r)
  | .reference (.value tag _ _ v) ref =>
    ∃ r, ref.Written r ∧ Aside o (g.whole ++ tag.values) data input v ('&' :: r)
  | .tagOpen => Textual o g data input ['<']
  | .endTagOpen => Textual o g data input ['<', '/']
  | .tagName tag => Between o (g.whole ++ tag.values) data input
  | .beforeName tag => Between o (g.whole ++ tag.values) data input
  | .attributeName tag _ => Between o (g.whole ++ tag.values) data input
  | .afterName tag _ => Between o (g.whole ++ tag.values ++ [.value []]) data input
  | .beforeValue tag _ => Between o (g.whole ++ tag.values) data input
  | .value tag _ _ v => Aside o (g.whole ++ tag.values) data input v []
  | .afterValue tag => Between o (g.whole ++ tag.values) data input
  | .selfClosing tag => Between o (g.whole ++ tag.values) data input
  | .declaration seen => Aside o g.whole data input seen []
  | .comment phase v => Aside o g.whole data input v phase.pending
  | .bogusComment v => Aside o g.whole data input v []
  | .doctype _ _ => Between o g.whole data input

/-- A step of the tokenizer that keeps the invariant; it may find more data. -/
def Goes (o : Origin) (g : Gathered) (data : List Datum) (input : Text)
    (next : State × List Token) : Prop :=
  ∃ more, Follows o (g.addAll next.2) (data ++ more) input next.1

section Steps

variable {o : Origin} {g : Gathered} {data : List Datum} {input pending : Text}

theorem Goes.stay {next : State × List Token} (h : Follows o (g.addAll next.2) data input next.1) :
    Goes o g data input next := ⟨[], by rw [List.append_nil]; exact h⟩

theorem Goes.find {more : List Datum} {next : State × List Token}
    (h : Goes o g (data ++ more) input next) : Goes o g data input next := by
  obtain ⟨others, follows⟩ := h
  rw [List.append_assoc] at follows
  exact ⟨more ++ others, follows⟩

theorem Goes.emitting {s : Text} {next : State × List Token}
    (h : Goes o ⟨g.closed, g.run ++ s⟩ data input next) :
    Goes o g data input (State.emitting (Token.characters s) next) := by
  obtain ⟨more, follows⟩ := h
  refine ⟨more, ?_⟩
  rw [State.emitting, Gathered.addAll_append, Gathered.addAll_characters]
  exact follows

theorem Textual.hold (h : Textual o g data input pending) (c : Char) :
    Textual o g data (input ++ [c]) (pending ++ [c]) := by
  obtain ⟨start, within⟩ := h
  exact ⟨start, within.hold c⟩

/-- What is pending turns out to be text. -/
theorem Textual.settle (h : Textual o g data input pending) {s : Text}
    (spelled : Spells true pending s) : Textual o ⟨g.closed, g.run ++ s⟩ data input [] := by
  obtain ⟨start, within⟩ := h
  exact ⟨start, within.settle spelled⟩

/-- The text ends before a character that is no digit. -/
theorem Textual.closeAt {c : Char} {rest : Text} (h : Textual o g data input (c :: rest))
    (ends : Text.isDigit c = false) : Between o g.whole (data ++ [.text g.run]) input := by
  obtain ⟨start, within⟩ := h
  exact Within.close (d := .text g.run) within ends

theorem Textual.close {rest : Text} (h : Textual o g data input ('<' :: rest)) :
    Between o g.whole (data ++ [.text g.run]) input := h.closeAt (by decide)

theorem Aside.hold {known : List Datum} {v : Text} (h : Aside o known data input v pending)
    (c : Char) : Aside o known data (input ++ [c]) v (pending ++ [c]) := by
  obtain ⟨start, within⟩ := h
  exact ⟨start, within.hold c⟩

theorem Aside.shift {known : List Datum} {v u p q : Text}
    (h : Aside o known data input v (p ++ q)) (spelled : Spells false p u) :
    Aside o known data input (v ++ u) q := by
  obtain ⟨start, within⟩ := h
  exact ⟨start, within.shift spelled⟩

theorem Aside.settle {known : List Datum} {v u : Text} (h : Aside o known data input v pending)
    (spelled : Spells false pending u) : Aside o known data input (v ++ u) [] := by
  obtain ⟨start, within⟩ := h
  exact ⟨start, within.settle spelled⟩

theorem Aside.close {known : List Datum} {d : Datum} {c : Char} {rest : Text}
    (kind : d.gaps = false) (h : Aside o known data input d.body (c :: rest))
    (ends : Text.isDigit c = false) : Between o (known ++ [d]) (data ++ [d]) input := by
  obtain ⟨start, within⟩ := h
  rw [← kind] at within
  exact within.close ends

theorem Aside.between {known : List Datum} {v : Text} (h : Aside o known data input v pending) :
    Between o known data input := by
  obtain ⟨start, within⟩ := h
  exact within.between

theorem Between.aside {known : List Datum} (h : Between o known data input) :
    Aside o known data input [] [] := ⟨input, h.within⟩

/-! ### Text -/

theorem goes_stepData (h : Textual o g data input []) (c : Char) :
    Goes o g data (input ++ [c]) (State.stepData c) := by
  unfold State.stepData
  split
  · rename_i ampersand
    rw [ampersand]
    exact .stay ⟨[], .named [], h.hold '&'⟩
  · split
    · rename_i less
      rw [less]
      exact .stay (h.hold '<')
    · exact .stay ((h.hold c).settle (.plain [c]))

/-- What one character of raw content does: it is text, or it may begin an end tag. -/
inductive RawStep (c : Char) : State × List Token → Prop
  | character {content : RawContent} {x : Char} : Spells true [c] [x] →
      RawStep c (.raw content, [.character x])
  | less {content : RawContent} : c = '<' → RawStep c (.rawLess content, [])

theorem RawStep.plain {c : Char} {content : RawContent} :
    RawStep c (.raw content, [.character c]) := .character (.plain [c])

theorem RawStep.kept {c : Char} {content : RawContent} :
    RawStep c (.raw content, [.character (State.kept c)]) := .character (.kept c)

theorem rawStep_stepScriptPlain (element : Text) (c : Char) :
    RawStep c (State.stepScriptPlain element c) := by
  unfold State.stepScriptPlain
  split
  · rename_i less
    exact .less less
  · exact .kept

theorem rawStep_stepScriptEscaped (element : Text) (dashes : Nat) (c : Char) :
    RawStep c (State.stepScriptEscaped element dashes c) := by
  unfold State.stepScriptEscaped
  split
  · exact .plain
  · split
    · rename_i less
      exact .less less
    · split
      · exact .plain
      · exact .kept

theorem rawStep_stepScriptNested (element : Text) (dashes : Nat) (c : Char) :
    RawStep c (State.stepScriptNested element dashes c) := by
  unfold State.stepScriptNested
  split
  · exact .plain
  · split
    · exact .plain
    · split
      · exact .plain
      · exact .kept

theorem rawStep_stepScript (element : Text) (phase : ScriptPhase) (c : Char) :
    RawStep c (State.stepScript element phase c) := by
  unfold State.stepScript
  cases phase with
  | plain => exact rawStep_stepScriptPlain element c
  | opening dashes =>
    simp only
    split
    · exact .plain
    · exact rawStep_stepScriptPlain element c
  | escaped dashes => exact rawStep_stepScriptEscaped element dashes c
  | entering word =>
    simp only
    split
    · exact .plain
    · split
      · exact .plain
      · exact rawStep_stepScriptEscaped element 0 c
  | nested dashes => exact rawStep_stepScriptNested element dashes c
  | nestedLess =>
    simp only
    split
    · exact .plain
    · exact rawStep_stepScriptNested element 0 c
  | leaving word =>
    simp only
    split
    · exact .plain
    · split
      · exact .plain
      · exact rawStep_stepScriptNested element 0 c

theorem goes_rawStep (h : Textual o g data input []) {c : Char} {next : State × List Token}
    (step : RawStep c next) : Goes o g data (input ++ [c]) next := by
  cases step with
  | character spelled => exact .stay ((h.hold c).settle spelled)
  | less less =>
    rw [less]
    exact .stay (h.hold '<')

theorem goes_stepRaw (h : Textual o g data input []) (content : RawContent) (c : Char) :
    Goes o g data (input ++ [c]) (State.stepRaw content c) := by
  cases content with
  | script element phase => exact goes_rawStep h (rawStep_stepScript element phase c)
  | plain element =>
    unfold State.stepRaw
    simp only
    split
    · rename_i ampersand
      rw [ampersand]
      exact .stay ⟨[], .named [], h.hold '&'⟩
    · split
      · rename_i less
        rw [less]
        exact .stay (h.hold '<')
      · exact goes_rawStep h .kept

theorem goes_stepRawLess (h : Textual o g data input ['<']) (content : RawContent) (c : Char) :
    Goes o g data (input ++ [c]) (State.stepRawLess content c) := by
  have text : Textual o ⟨g.closed, g.run ++ ['<']⟩ data input [] := h.settle (.plain _)
  have letter : ∀ next, RawStep c next →
      Goes o g data (input ++ [c]) (State.emitting [.character '<'] next) := fun _ step =>
    (goes_rawStep text step).emitting (s := ['<'])
  have other : Goes o g data (input ++ [c])
      (State.emitting [.character '<'] (State.stepRaw content c)) :=
    (goes_stepRaw text content c).emitting (s := ['<'])
  unfold State.stepRawLess
  split
  · rename_i slash
    rw [slash]
    exact .stay (h.hold '/')
  · split
    · split
      · rename_i bang
        rw [bang]
        refine .stay ?_
        show Textual o (g.addAll (Token.characters ['<', '!'])) data (input ++ ['!']) []
        rw [Gathered.addAll_characters]
        exact (h.hold '!').settle (.plain _)
      · exact other
    · split
      · exact letter _ (rawStep_stepScript _ _ c)
      · exact other
    · exact other

theorem goes_stepRawEndOpen (h : Textual o g data input ['<', '/']) (content : RawContent)
    (c : Char) : Goes o g data (input ++ [c]) (State.stepRawEndOpen content c) := by
  unfold State.stepRawEndOpen
  split
  · exact .stay (h.hold c)
  · exact (goes_stepRaw (h.settle (.plain _)) content c).emitting

/-! ### Tags -/

variable {tag : Tag}

/-- The end of a tag tells of its attribute values, unless it is an end tag. -/
theorem goes_closeTag (h : Between o (g.whole ++ tag.values) data input) (selfClosing : Bool) :
    Goes o g data input (State.closeTag tag selfClosing) := by
  obtain ⟨run, sub⟩ := g.add_token tag selfClosing
  have text : Textual o (g.add (tag.token selfClosing)) data input [] :=
    ⟨input, by rw [run]; exact (h.of_subperm sub).within⟩
  refine .stay ?_
  show Follows o (g.add (tag.token selfClosing)) data input (State.afterTag tag selfClosing)
  unfold State.afterTag State.content
  split
  · exact text
  · split
    · exact text
    · split
      · exact text
      · exact text

/-- The tag with one more attribute. -/
theorem Between.withAttribute {v : Text}
    (h : Between o (g.whole ++ tag.values ++ [.value v]) data input) (name : Text) :
    Between o (g.whole ++ (tag.withAttribute name v).values) data input := by
  refine h.of_subperm ?_
  rw [List.append_assoc]
  exact (List.subperm_append_left _).mpr (tag.values_withAttribute name v)

/-- An attribute without a value has an empty one. -/
theorem Between.withEmpty {known : List Datum} (h : Between o known data input) {c : Char}
    (other : Text.isDigit c = false) :
    Between o (known ++ [.value []]) (data ++ [.value []]) (input ++ [c]) :=
  (h.aside.hold c).close (d := .value []) rfl other

theorem Between.withoutEmpty {known : List Datum}
    (h : Between o (known ++ [.value []]) data input) : Between o known data input :=
  h.of_subperm (List.sublist_append_left _ _).subperm

theorem goes_stepBeforeName (h : Between o (g.whole ++ tag.values) data input) (c : Char) :
    Goes o g data (input ++ [c]) (State.stepBeforeName tag c) := by
  have later := h.skip c
  unfold State.stepBeforeName
  split
  · exact .stay later
  · split
    · exact .stay later
    · split
      · exact goes_closeTag later false
      · exact .stay later

theorem goes_stepTagName (h : Between o (g.whole ++ tag.values) data input) (c : Char) :
    Goes o g data (input ++ [c]) (State.stepTagName tag c) := by
  have later := h.skip c
  unfold State.stepTagName
  split
  · exact .stay later
  · split
    · exact .stay later
    · split
      · exact goes_closeTag later false
      · exact .stay later

theorem goes_stepSelfClosing (h : Between o (g.whole ++ tag.values) data input) (c : Char) :
    Goes o g data (input ++ [c]) (State.stepSelfClosing tag c) := by
  unfold State.stepSelfClosing
  split
  · exact goes_closeTag (h.skip c) true
  · exact goes_stepBeforeName h c

theorem goes_stepAttributeName (h : Between o (g.whole ++ tag.values) data input) (name : Text)
    (c : Char) : Goes o g data (input ++ [c]) (State.stepAttributeName tag name c) := by
  have later := h.skip c
  unfold State.stepAttributeName
  split
  · rename_i blank
    have other : Text.isDigit c = false :=
      State.isDigit_of_ends (show Quote.none.ends c = true by simp [Quote.ends, blank])
    exact ⟨_, h.withEmpty other⟩
  · split
    · rename_i slash
      subst slash
      exact ⟨_, (h.withEmpty (by decide)).withAttribute name⟩
    · split
      · rename_i last
        subst last
        exact .find (goes_closeTag ((h.withEmpty (by decide)).withAttribute name) false)
      · split
        · exact .stay later
        · exact .stay later

theorem goes_stepAfterName (h : Between o (g.whole ++ tag.values ++ [.value []]) data input)
    (name : Text) (c : Char) : Goes o g data (input ++ [c]) (State.stepAfterName tag name c) := by
  have later := h.skip c
  unfold State.stepAfterName
  split
  · exact .stay later
  · split
    · exact .stay (later.withAttribute name)
    · split
      · exact goes_closeTag (later.withAttribute name) false
      · split
        · exact .stay later.withoutEmpty
        · exact .stay (later.withAttribute name)

/-! ### Attribute values -/

theorem goes_leaveValue_of_between (h : Between o (g.whole ++ tag.values) data input)
    (quote : Quote) (c : Char) : Goes o g data input (State.leaveValue tag quote c) := by
  unfold State.leaveValue
  split
  · split
    · exact goes_closeTag h false
    · exact .stay h
  · exact .stay h

/-- An attribute value that has been read to its end. -/
theorem goes_leaveValue {v : Text} (h : Aside o (g.whole ++ tag.values) data input v [])
    (name : Text) {quote : Quote} {c : Char} (ends : quote.ends c = true) :
    Goes o g (data ++ [.value v]) (input ++ [c])
      (State.leaveValue (tag.withAttribute name v) quote c) := by
  exact goes_leaveValue_of_between (((h.hold c).close (d := .value v) rfl
    (State.isDigit_of_ends ends)).withAttribute name) quote c

theorem goes_stepValue {v : Text} (h : Aside o (g.whole ++ tag.values) data input v [])
    (name : Text) (quote : Quote) (c : Char) :
    Goes o g data (input ++ [c]) (State.stepValue tag name quote v c) := by
  by_cases ampersand : c = '&'
  · subst ampersand
    exact .stay ⟨[], .named [], h.hold '&'⟩
  · rw [State.stepValue_eq tag name quote v ampersand]
    split
    · rename_i ends
      exact .find (goes_leaveValue h name ends)
    · exact .stay ((h.hold c).settle (.kept c))

theorem goes_stepBeforeValue (h : Between o (g.whole ++ tag.values) data input) (name : Text)
    (c : Char) : Goes o g data (input ++ [c]) (State.stepBeforeValue tag name c) := by
  have later := h.skip c
  unfold State.stepBeforeValue
  split
  · exact .stay later
  · split
    · exact .stay later.aside
    · split
      · exact .stay later.aside
      · split
        · rename_i last
          subst last
          exact .find (goes_closeTag ((h.withEmpty (by decide)).withAttribute name) false)
        · exact goes_stepValue h.aside name .none c

/-! ### Comments and document types -/

/-- Nothing is being read after a mark that is complete. -/
theorem Between.textual (h : Between o g.closed data input) (run : g.run = []) :
    Textual o g data input [] := ⟨input, by rw [run]; exact h.within⟩

/-- The end of a comment at a greater-than sign. -/
theorem goes_endComment {v : Text} {first : Char} {rest : Text}
    (h : Aside o g.whole data input v (first :: rest)) (other : Text.isDigit first = false) :
    Goes o g data input (.data, [.comment v]) :=
  ⟨_, (h.close (d := .comment v) rfl other).textual rfl⟩

theorem goes_stepBogusComment {v : Text} (h : Aside o g.whole data input v []) (c : Char) :
    Goes o g data (input ++ [c]) (State.stepBogusComment v c) := by
  unfold State.stepBogusComment
  split
  · rename_i last
    subst last
    exact goes_endComment (h.hold '>') (by decide)
  · exact .stay ((h.hold c).settle (.kept c))

theorem goes_stepCommentBody {v : Text} (h : Aside o g.whole data input v []) (c : Char) :
    Goes o g data (input ++ [c]) (State.stepCommentBody v c) := by
  unfold State.stepCommentBody
  split
  · rename_i dash
    subst dash
    exact .stay (h.hold '-')
  · exact .stay ((h.hold c).settle (.kept c))

theorem goes_stepComment (phase : CommentPhase) {v : Text}
    (h : Aside o g.whole data input v phase.pending) (c : Char) :
    Goes o g data (input ++ [c]) (State.stepComment phase v c) := by
  have later := h.hold c
  -- Outside an end, what was pending is data, and the comment goes on from there.
  have body : Goes o g data (input ++ [c]) (State.stepCommentBody (v ++ phase.pending) c) :=
    goes_stepCommentBody (h.settle (.plain _)) c
  unfold State.stepComment
  cases phase with
  | start =>
    rw [CommentPhase.pending, List.append_nil] at body
    simp only
    split
    · rename_i dash
      subst dash
      exact .stay later
    · split
      · rename_i last
        subst last
        exact goes_endComment later (by decide)
      · exact body
  | startDash =>
    simp only
    split
    · rename_i dash
      subst dash
      exact .stay later
    · split
      · exact goes_endComment later (by decide)
      · exact body
  | body =>
    rw [CommentPhase.pending, List.append_nil] at body
    exact body
  | dash =>
    simp only
    split
    · rename_i dash
      subst dash
      exact .stay later
    · exact body
  | dashes =>
    simp only
    split
    · exact goes_endComment later (by decide)
    · split
      · rename_i bang
        subst bang
        exact .stay later
      · split
        · rename_i dash
          subst dash
          exact .stay (later.shift (p := ['-']) (.plain _))
        · exact body
  | bang =>
    simp only
    split
    · rename_i dash
      subst dash
      exact .stay (later.shift (p := ['-', '-', '!']) (.plain _))
    · split
      · exact goes_endComment later (by decide)
      · exact body

theorem goes_stepDeclaration {seen : Text} (h : Aside o g.whole data input seen []) (c : Char) :
    Goes o g data (input ++ [c]) (State.stepDeclaration seen c) := by
  have more : Aside o g.whole data (input ++ [c]) (seen ++ [c]) [] := (h.hold c).settle (.plain [c])
  unfold State.stepDeclaration
  split
  · rename_i same
    rw [same] at more
    exact .stay more
  · split
    · exact .stay more.between.aside
    · split
      · exact .stay more.between
      · split
        · exact .stay more
        · exact goes_stepBogusComment h c

theorem goes_stepDoctype (h : Between o g.whole data input) (phase : DoctypePhase) (name : Text)
    (c : Char) : Goes o g data (input ++ [c]) (State.stepDoctype phase name c) := by
  have later := h.skip c
  unfold State.stepDoctype
  split
  · exact .stay (later.textual rfl)
  · cases phase with
    | before =>
      simp only
      split
      · exact .stay later
      · exact .stay later
    | name =>
      simp only
      split
      · exact .stay later
      · exact .stay later
    | after => exact .stay later

/-! ### The beginnings of marks -/

/-- A tag without attributes. -/
theorem Between.newTag {known : List Datum} (h : Between o known data input) (closing : Bool)
    (name : Text) : Between o (known ++ Tag.values ⟨closing, name, []⟩) data input := by
  rw [show Tag.values ⟨closing, name, []⟩ = [] from rfl, List.append_nil]
  exact h

theorem goes_stepTagOpen (h : Textual o g data input ['<']) (c : Char) :
    Goes o g data (input ++ [c]) (State.stepTagOpen c) := by
  have opened : Between o g.whole (data ++ [.text g.run]) (input ++ [c]) := h.close.skip c
  unfold State.stepTagOpen
  split
  · exact ⟨_, opened.aside⟩
  · split
    · rename_i slash
      subst slash
      exact .stay (h.hold '/')
    · split
      · exact ⟨_, opened.newTag _ _⟩
      · split
        · rename_i question
          subst question
          exact ⟨_, (h.close.aside.hold '?').settle (.plain _)⟩
        · exact (goes_stepData (h.settle (.plain _)) c).emitting (s := ['<'])

theorem goes_stepEndTagOpen (h : Textual o g data input ['<', '/']) (c : Char) :
    Goes o g data (input ++ [c]) (State.stepEndTagOpen c) := by
  unfold State.stepEndTagOpen
  split
  · exact ⟨_, (h.close.skip c).newTag _ _⟩
  · split
    · rename_i last
      subst last
      have gap : Textual o ⟨g.closed, g.run ++ []⟩ data (input ++ ['>']) [] :=
        (h.hold '>').settle (.glyph (.gap rfl))
      rw [List.append_nil] at gap
      exact .stay gap
    · exact .find (goes_stepBogusComment h.close.aside c)

theorem goes_stepRawEndName {letters : Text} (h : Textual o g data input ('<' :: '/' :: letters))
    (content : RawContent) (c : Char) :
    Goes o g data (input ++ [c]) (State.stepRawEndName content letters c) := by
  have opened : Between o (g.whole ++ Tag.values ⟨true, Text.lower letters, []⟩)
      (data ++ [.text g.run]) (input ++ [c]) := (h.close.skip c).newTag _ _
  unfold State.stepRawEndName
  simp only
  split
  · exact .stay (h.hold c)
  · split
    · exact ⟨_, opened⟩
    · split
      · exact ⟨_, opened⟩
      · split
        · exact .find (goes_closeTag opened false)
        · exact (goes_stepRaw (h.settle (.plain _)) content c).emitting

/-! ### References -/

theorem goes_stepReference {target : ReferenceTarget} {ref : Reference}
    (h : Follows o g data input (.reference target ref)) (c : Char) :
    Goes o g data (input ++ [c]) (State.stepReference target ref c) := by
  unfold State.stepReference
  cases target with
  | value tag name quote v =>
    obtain ⟨r, written, aside⟩ := h
    have outcome : (ref.step true c).Spelled false r c := written.step true c
    simp only [ReferenceTarget.inAttribute]
    cases step : ref.step true c with
    | more ref' =>
      rw [step] at outcome
      exact .stay ⟨_, outcome, aside.hold c⟩
    | done text =>
      rw [step] at outcome
      exact .stay ((aside.hold c).settle outcome)
    | before text =>
      rw [step] at outcome
      exact goes_stepValue (aside.settle outcome) name quote c
  | data =>
    obtain ⟨r, written, textual⟩ := h
    have outcome : (ref.step false c).Spelled true r c := written.step false c
    simp only [ReferenceTarget.inAttribute]
    cases step : ref.step false c with
    | more ref' =>
      rw [step] at outcome
      exact .stay ⟨_, outcome, textual.hold c⟩
    | done text =>
      rw [step] at outcome
      refine .stay ?_
      show Textual o (g.addAll (Token.characters text)) data (input ++ [c]) []
      rw [Gathered.addAll_characters]
      exact (textual.hold c).settle outcome
    | before text =>
      rw [step] at outcome
      exact (goes_stepData (textual.settle outcome) c).emitting
  | raw element =>
    obtain ⟨r, written, textual⟩ := h
    have outcome : (ref.step false c).Spelled true r c := written.step false c
    simp only [ReferenceTarget.inAttribute]
    cases step : ref.step false c with
    | more ref' =>
      rw [step] at outcome
      exact .stay ⟨_, outcome, textual.hold c⟩
    | done text =>
      rw [step] at outcome
      refine .stay ?_
      show Textual o (g.addAll (Token.characters text)) data (input ++ [c]) []
      rw [Gathered.addAll_characters]
      exact (textual.hold c).settle outcome
    | before text =>
      rw [step] at outcome
      exact (goes_stepRaw (textual.settle outcome) (.plain element) c).emitting

/-! ## Whole texts -/

/-- Every character keeps the invariant. -/
theorem follows_step {state : State} (h : Follows o g data input state) (c : Char) :
    Goes o g data (input ++ [c]) (state.step c) := by
  cases state with
  | data => exact goes_stepData h c
  | raw content => exact goes_stepRaw h content c
  | rawLess content => exact goes_stepRawLess h content c
  | rawEndOpen content => exact goes_stepRawEndOpen h content c
  | rawEndName content letters => exact goes_stepRawEndName h content c
  | reference target ref => exact goes_stepReference h c
  | tagOpen => exact goes_stepTagOpen h c
  | endTagOpen => exact goes_stepEndTagOpen h c
  | tagName tag => exact goes_stepTagName h c
  | beforeName tag => exact goes_stepBeforeName h c
  | attributeName tag name => exact goes_stepAttributeName h name c
  | afterName tag name => exact goes_stepAfterName h name c
  | beforeValue tag name => exact goes_stepBeforeValue h name c
  | value tag name quote v => exact goes_stepValue h name quote c
  | afterValue tag => exact goes_stepBeforeName h c
  | selfClosing tag => exact goes_stepSelfClosing h c
  | declaration seen => exact goes_stepDeclaration h c
  | comment phase v => exact goes_stepComment phase h c
  | bogusComment v => exact goes_stepBogusComment h c
  | doctype phase name => exact goes_stepDoctype h phase name c

/-- All data that tokens tell of are on the trail of the input. -/
def Ended (o : Origin) (g : Gathered) (data : List Datum) (input : Text) : Prop :=
  ∃ more, Trail o input (data ++ more) ∧ List.Subperm g.whole (data ++ more)

theorem Textual.ended (h : Textual o g data input []) : Ended o g data (input ++ ['"']) := by
  have between := (h.hold '"').closeAt (by decide)
  exact ⟨_, between.trail, between.known⟩

theorem Ended.skip (h : Ended o g data input) (c : Char) : Ended o g data (input ++ [c]) := by
  obtain ⟨more, trail, sub⟩ := h
  exact ⟨more, trail.skip c, sub⟩

theorem Ended.find {more : List Datum} (h : Ended o g (data ++ more) input) :
    Ended o g data input := by
  obtain ⟨others, trail, sub⟩ := h
  rw [List.append_assoc] at trail sub
  exact ⟨more ++ others, trail, sub⟩

theorem Between.ended {known : List Datum} (h : Between o (g.whole ++ known) data input) :
    Ended o g data input := by
  refine ⟨[], ?_, ?_⟩
  · rw [List.append_nil]
    exact h.trail
  · rw [List.append_nil]
    exact (List.sublist_append_left _ _).subperm.trans h.known

theorem Goes.ended {state : State} {tokens : List Token} (h : Goes o g data input (state, tokens))
    (silent : ∀ g data input, Follows o g data input state → Ended o g data (input ++ ['"'])) :
    Ended o (g.addAll tokens) data (input ++ ['"']) := by
  obtain ⟨more, follows⟩ := h
  exact .find (silent _ _ _ follows)

/-- At the end of the input everything is on the trail that the last tokens tell of, as if two
quotation marks were left, which end all data. -/
theorem ended_finish {state : State} (h : Follows o g data input state) :
    Ended o (g.addAll state.finish) data (input ++ ['"'] ++ ['"']) := by
  have text : ∀ {pending s : Text}, Textual o g data input pending → Spells true pending s →
      Ended o (g.addAll (Token.characters s)) data (input ++ ['"'] ++ ['"']) := by
    intro pending s textual spelled
    rw [Gathered.addAll_characters]
    exact (textual.settle spelled).ended.skip '"'
  have comment : ∀ {v : Text} {first : Char} {rest : Text},
      Aside o g.whole data (input ++ ['"']) v (first :: rest) → Text.isDigit first = false →
      Ended o (g.addAll [.comment v]) data (input ++ ['"'] ++ ['"']) :=
    fun aside other => (goes_endComment aside other).ended fun _ _ _ follows => follows.ended
  have tag : ∀ {known : List Datum}, Between o (g.whole ++ known) data input →
      Ended o g data (input ++ ['"'] ++ ['"']) := fun between => (between.ended.skip '"').skip '"'
  cases state with
  | data => exact h.ended.skip '"'
  | raw content => exact h.ended.skip '"'
  | rawLess content => exact text (s := ['<']) h (.plain _)
  | rawEndOpen content => exact text h (.plain _)
  | rawEndName content letters => exact text h (.plain _)
  | reference target ref =>
    cases target with
    | value t name quote v =>
      obtain ⟨r, _, aside⟩ := h
      exact tag aside.between
    | data =>
      obtain ⟨r, written, textual⟩ := h
      exact text textual (written.finish false)
    | raw element =>
      obtain ⟨r, written, textual⟩ := h
      exact text textual (written.finish false)
  | tagOpen => exact text (s := ['<']) h (.plain _)
  | endTagOpen => exact text h (.plain _)
  | tagName t => exact tag h
  | beforeName t => exact tag h
  | attributeName t name => exact tag h
  | afterName t name => exact tag h.withoutEmpty
  | beforeValue t name => exact tag h
  | value t name quote v => exact tag (Aside.between h)
  | afterValue t => exact tag h
  | selfClosing t => exact tag h
  | declaration seen => exact comment (Aside.hold h '"') (by decide)
  | comment phase v => cases phase <;> exact comment (Aside.hold h '"') (by decide)
  | bogusComment v => exact comment (Aside.hold h '"') (by decide)
  | doctype phase name =>
    have textual : Textual o ⟨g.whole, []⟩ data input [] := Between.textual h rfl
    exact textual.ended.skip '"'

/-- Every text keeps the invariant. -/
theorem follows_after {state : State} (h : Follows o g data input state) (s : Text) :
    ∃ more, Follows o (g.addAll (state.emitted s)) (data ++ more) (input ++ s) (state.after s) := by
  induction s generalizing g data input state with
  | nil =>
    refine ⟨[], ?_⟩
    rw [List.append_nil, List.append_nil]
    exact h
  | cons c s ih =>
    obtain ⟨more, next⟩ := follows_step h c
    obtain ⟨others, last⟩ := ih next
    refine ⟨more ++ others, ?_⟩
    rw [State.emitted, Gathered.addAll_append]
    simp only [List.append_assoc, List.singleton_append] at last
    exact last

/-- All data that the tokens of a text tell of are spelled by it one after the other. -/
theorem ended_run {state : State} (h : Follows o g data input state) (s : Text) :
    Ended o (g.addAll (state.run s)) data (input ++ s ++ ['"'] ++ ['"']) := by
  obtain ⟨more, last⟩ := follows_after h s
  have whole := State.run_append state s []
  rw [List.append_nil] at whole
  rw [whole, Gathered.addAll_append]
  exact .find (ended_finish last)

/-- What is read after some point is spelled after it. -/
theorem ended_from {known : List Datum} {next : State × List Token}
    (h : Between .zero known data input)
    (goes : ∀ o, Between o known data input → Goes o g data input next) (s : Text) :
    ∃ more, Trail .zero (s ++ ['"'] ++ ['"']) more ∧
      List.Subperm (g.addAll (next.2 ++ next.1.run s)).whole (data ++ more) := by
  obtain ⟨others, follows⟩ := goes ⟨input, data⟩ ⟨h.known, .start⟩
  obtain ⟨last, trail, sub⟩ := Ended.find (ended_run follows s)
  obtain ⟨rest, more, text, found, trail⟩ := trail.rest
  simp only [List.append_assoc] at text
  rw [← List.append_cancel_left text, ← List.append_assoc] at trail
  rw [← List.append_cancel_left found] at trail
  rw [Gathered.addAll_append]
  exact ⟨last, trail, sub⟩

end Steps

end HtmlTemplate
