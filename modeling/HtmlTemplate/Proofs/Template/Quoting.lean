import HtmlTemplate.Proofs.Markup.Names
import HtmlTemplate.Proofs.Markup.Unmarked
import HtmlTemplate.Proofs.Template.Company
import HtmlTemplate.Proofs.Template.Misled

/-!
# Ways to quote a slot

The value of an attribute that is a slot and nothing else can be written bare, in double or in
single quotation marks, with any blanks around the equals sign. The three places are different for
the scanner, and so are the markers put there, but the tokenizer reads the same attribute: the
skeleton is compiled in the same way (`compile_assignment`).
-/

namespace HtmlTemplate

/-! ## Looking ahead -/

namespace Scan

variable {scan : Scan} {c : Char}

/-- A character that the scanner never waits for where it looks ahead. -/
structure Unawaited (c : Char) : Prop where
  letter : Text.isLetter c = false
  mark : c ∉ ['!', '-', '>', '/']

theorem Unawaited.not_mem {phrase : Text} (h : Unawaited c)
    (marks : phrase ⊆ ['!', '-', '>', '/']) :
    c ∉ phrase := fun member => h.mark (marks member)

theorem Unawaited.startsWithLetter (h : Unawaited c) (rest after : Text) :
    startsWithLetter (rest ++ c :: after) = startsWithLetter rest := by
  cases rest with
  | nil => exact h.letter
  | cons d rest => rfl

theorem Unawaited.stepContent (h : Unawaited c) (d : Char) (rest after : Text) :
    scan.stepContent d (rest ++ c :: after) = scan.stepContent d rest := by
  unfold Scan.stepContent
  rw [Text.startsWith_append_cons (h.not_mem (by decide))]
  cases rest with
  | nil =>
    have slash : c ≠ '/' := fun same => h.mark (by simp [same])
    simp [slash, h.letter, Scan.startsWithLetter]
  | cons e rest =>
    by_cases slash : e = '/'
    · subst slash
      simp only [List.cons_append, h.startsWithLetter]
    · have letter : Scan.startsWithLetter (e :: (rest ++ c :: after)) =
          Scan.startsWithLetter (e :: rest) := rfl
      simp [slash, letter]

theorem Unawaited.closes (h : Unawaited c) {element : Text}
    (isRaw : Vocabulary.isRawText element = true) (rest after : Text) :
    closes element (rest ++ c :: after) = closes element rest := by
  rw [Bool.eq_iff_iff, closes_iff, closes_iff]
  constructor
  · rintro ⟨later, same, more, last, rfl, rfl⟩
    rw [← List.cons_append] at same
    rcases List.append_eq_append_iff.mp same with ⟨u, letters, beyond⟩ | ⟨u, split, _⟩
    · cases u with
      | nil =>
        rw [List.append_nil] at letters
        exact ⟨more, letters.symm, more, [], by rw [List.append_nil], rfl⟩
      | cons d u =>
        -- The character would be the slash or one of the letters.
        exfalso
        obtain ⟨rfl, _⟩ := List.cons.inj beyond
        have member : c ∈ '/' :: more := by rw [letters]; simp
        rcases List.mem_cons.mp member with slash | member
        · exact h.mark (by simp [slash])
        · have letter := Text.isLetter_of_lowerChar
            (Vocabulary.isSmall_of_isRawText isRaw (List.mem_map_of_mem member))
          rw [h.letter] at letter
          cases letter
    · exact ⟨more ++ u, split, more, u, rfl, rfl⟩
  · rintro ⟨_, rfl, more, last, rfl, spelled⟩
    exact ⟨more ++ last ++ c :: after, rfl, more, last ++ c :: after, List.append_assoc .., spelled⟩

/-- Where the scanner looks ahead, it does not look beyond a character that it does not wait for. -/
theorem Unawaited.step (h : Unawaited c) (genuine : scan.Genuine) (d : Char) (rest after : Text) :
    scan.step d (rest ++ c :: after) = scan.step d rest := by
  unfold Scan.step
  cases place : scan.place with
  | content => exact h.stepContent d rest after
  | comment =>
    simp only [Text.startsWith_append_cons (h.not_mem (by decide : ['-', '>'] ⊆ _))]
  | rawText element =>
    rw [Genuine, place] at genuine
    have same := h.closes genuine rest after
    unfold Scan.closes at same
    simp only [same]
  | _ => rfl

/-- Segments are followed up to a character that the scanner does not wait for, and then from it
on. -/
theorem Unawaited.feed (h : Unawaited c) (genuine : scan.Genuine) (text after : Text) :
    scan.feed (text ++ c :: after) = (scan.feed text).feed (c :: after) := by
  induction text generalizing scan with
  | nil => rfl
  | cons d text ih =>
    rw [List.cons_append, Scan.feed, h.step genuine]
    show _ = (if scan.skip = 0 then (scan.step d text).feed text else _).feed (c :: after)
    split
    · exact ih (genuine.step d text)
    · exact ih genuine

end Scan

/-! ## Blanks -/

namespace Text

/-- All white space of ASCII. -/
def blanks : Text := [' ', '\t', '\n', '\x0c', '\r']

theorem mem_blanks {c : Char} (blank : isBlank c = true) : c ∈ blanks := by
  simp only [isBlank, Bool.or_eq_true, beq_iff_eq] at blank
  rcases blank with (((rfl | rfl) | rfl) | rfl) | rfl <;> decide

theorem isBlank_normalizeNewlines {text : Text} (blank : ∀ c ∈ text, isBlank c = true) :
    ∀ c ∈ normalizeNewlines text, isBlank c = true := by
  induction text using normalizeNewlines.induct with
  | case1 text ih =>
    rw [normalizeNewlines]
    exact List.forall_mem_cons.mpr ⟨rfl, ih fun c member => blank c (by simp [member])⟩
  | case2 text none ih =>
    rw [normalizeNewlines_return none]
    exact List.forall_mem_cons.mpr ⟨rfl, ih fun c member => blank c (by simp [member])⟩
  | case3 c text _ notReturn ih =>
    rw [normalizeNewlines_cons notReturn]
    exact List.forall_mem_cons.mpr
      ⟨blank c List.mem_cons_self, ih fun d member => blank d (List.mem_cons_of_mem c member)⟩
  | case4 => exact fun c member => absurd member List.not_mem_nil

end Text

namespace Scan

theorem unawaited_equals : Unawaited '=' := ⟨by decide, by decide⟩

theorem Unawaited.of_isBlank {c : Char} (blank : Text.isBlank c = true) : Unawaited c := by
  have all : ∀ c ∈ Text.blanks, Text.isLetter c = false ∧ c ∉ ['!', '-', '>', '/'] :=
    List.all_iff_forall_prop.mp (by decide)
  obtain ⟨letter, mark⟩ := all c (Text.mem_blanks blank)
  exact ⟨letter, mark⟩

end Scan

namespace State

variable {tag : Tag} {name : Text}

/-- Blanks are passed over where they change nothing. -/
theorem run_blanks {state : State} (idle : ∀ c, Text.isBlank c = true → state.step c = (state, []))
    {blanks : Text} (blank : ∀ c ∈ blanks, Text.isBlank c = true) (text : Text) :
    state.run (blanks ++ text) = state.run text := by
  induction blanks with
  | nil => rfl
  | cons c blanks ih =>
    rw [List.cons_append, run, idle c (blank c List.mem_cons_self)]
    exact ih fun d member => blank d (List.mem_cons_of_mem c member)

theorem step_afterName_blank (tag : Tag) (name : Text) (c : Char) (blank : Text.isBlank c = true) :
    (afterName tag name).step c = (afterName tag name, []) := if_pos blank

theorem step_beforeValue_blank (tag : Tag) (name : Text) (c : Char)
    (blank : Text.isBlank c = true) :
    (beforeValue tag name).step c = (beforeValue tag name, []) := if_pos blank

/-- An equals sign after the name of an attribute, with blanks around it. -/
theorem run_equals {before after : Text} (left : ∀ c ∈ before, Text.isBlank c = true)
    (right : ∀ c ∈ after, Text.isBlank c = true) (tag : Tag) (name text : Text) :
    (attributeName tag name).run (before ++ '=' :: (after ++ text)) =
      (beforeValue tag name).run text := by
  have equals : (attributeName tag name).run (before ++ '=' :: (after ++ text)) =
      (beforeValue tag name).run (after ++ text) := by
    cases before with
    | nil => rfl
    | cons c before =>
      have first : (attributeName tag name).step c = (afterName tag name, []) :=
        if_pos (left c List.mem_cons_self)
      rw [List.cons_append, run, first]
      exact run_blanks (step_afterName_blank tag name)
        (fun d member => left d (List.mem_cons_of_mem c member)) _
  rw [equals, run_blanks (step_beforeValue_blank tag name) right]

/-- The name of an attribute does not go on at the end of a line. -/
theorem getLast?_of_attributeName {text : Text} (named : data.after text = attributeName tag name) :
    text.getLast? ≠ some '\n' := by
  intro last
  obtain ⟨seen, rfl⟩ := List.getLast?_eq_some_iff.mp last
  have start : data.Tidy (fun _ => True) [] := trivial
  have fresh : data.Named := trivial
  obtain ⟨tidy, _⟩ := tidy_after (fun _ _ => trivial) start
  have known := named_after fresh (seen ++ ['\n'])
  rw [named] at tidy known
  obtain ⟨_, part⟩ := tidy
  obtain ⟨_, ⟨first, others, rfl, _⟩, characters⟩ := known
  -- The last character of the name is the last one of the text.
  have same : (first :: others).getLast? = some '\n' := by
    obtain ⟨front, whole⟩ := part
    have ends : (front ++ first :: others).getLast? = some '\n' := by
      rw [whole, inNames, List.nil_append, List.map_append]
      exact List.getLast?_concat
    rw [List.getLast?_append_of_ne_nil _ (List.cons_ne_nil _ _)] at ends
    exact ends
  have solid := (characters _ (List.mem_of_getLast? same)).solid
  cases solid

end State

namespace Template

open Sentinel

variable {s : Sentinel} {options : Options} {before rest : List Text} {head next : Text} {tag : Tag}
  {name : Text}

/-! ## Joined segments -/

/-- The last segment goes on at the end of the joined text. -/
theorem joinFrom_concat (s : Sentinel) (scan : Scan) (slot : Nat) (before : List Text)
    (head more : Text) :
    s.joinFrom scan slot (before ++ [head ++ more]) =
      s.joinFrom scan slot (before ++ [head]) ++ more := by
  induction before generalizing scan slot with
  | nil => rfl
  | cons first before ih =>
    rw [List.cons_append, List.cons_append, joinFrom_cons s scan slot first (by simp),
      joinFrom_cons s scan slot first (by simp), ih]
    simp only [List.append_assoc]

/-- What comes after the name of an attribute begins a line of its own, if any. -/
theorem normalizeNewlines_afterName (named : stateBefore s before head = .attributeName tag name)
    (text : Text) : normalizeNewlines (s.join (before ++ [head]) ++ text) =
      markupBefore s before head ++ normalizeNewlines text := by
  refine normalizeNewlines_append_of_not_across fun across => ?_
  obtain ⟨last, _⟩ := across
  obtain ⟨front, whole⟩ := List.getLast?_eq_some_iff.mp last
  refine State.getLast?_of_attributeName named ?_
  rw [markupBefore, whole, normalizeNewlines_append front (by decide)]
  exact List.getLast?_concat

/-! ## Assignments -/

/-- A way to write a value after the name of its attribute: blanks around the equals sign, and the
quotation marks. -/
structure Assignment where
  before : Text
  after : Text
  quote : Quote
  blank : ∀ c ∈ before ++ after, Text.isBlank c = true

namespace Assignment

/-- The quotation mark on either side of the value. -/
def mark (a : Assignment) : Text :=
  match a.quote with
  | .double => ['"']
  | .single => ['\'']
  | .none => []

/-- What stands between the name and the value. -/
def opening (a : Assignment) : Text := a.before ++ '=' :: (a.after ++ a.mark)

/-- The place of the value. -/
def place (a : Assignment) : Place :=
  match a.quote with
  | .double => .quoted '"'
  | .single => .quoted '\''
  | .none => .beforeValue

/-- The quotation mark on either side of the marker in the joined text. -/
def written (a : Assignment) : Char :=
  match a.quote with
  | .double => '"'
  | .single => '\''
  | .none => '"'

theorem blank_before (a : Assignment) : ∀ c ∈ a.before, Text.isBlank c = true := fun c member =>
  a.blank c (List.mem_append_left _ member)

theorem blank_after (a : Assignment) : ∀ c ∈ a.after, Text.isBlank c = true := fun c member =>
  a.blank c (List.mem_append_right _ member)

theorem opening_eq_cons (a : Assignment) : ∃ c more, a.opening = c :: more ∧ Scan.Unawaited c := by
  rw [opening]
  cases found : a.before with
  | nil => exact ⟨'=', _, rfl, Scan.unawaited_equals⟩
  | cons c before =>
    exact ⟨c, _, rfl, .of_isBlank (a.blank_before c (by rw [found]; exact List.mem_cons_self))⟩

/-- The scanner follows an assignment in a tag. -/
theorem feed_opening (a : Assignment) {scan : Scan} (settled : scan.Settled)
    (inTag : scan.place = .tag) : scan.feed a.opening = { scan with place := a.place } := by
  have quiet : ∀ c, Text.isBlank c = true → c ≠ '=' ∧ c ≠ '>' ∧ c ≠ '"' ∧ c ≠ '\'' := by
    have all : ∀ c ∈ Text.blanks, c ≠ '=' ∧ c ≠ '>' ∧ c ≠ '"' ∧ c ≠ '\'' :=
      List.all_iff_forall_prop.mp (by decide)
    exact fun c blank => all c (Text.mem_blanks blank)
  have left : ∀ c ∈ a.before, ∀ rest, scan.step c rest = scan := by
    intro c member rest
    obtain ⟨equals, greater, _⟩ := quiet c (a.blank_before c member)
    exact settled.step_of_inTag (.inl inTag) ⟨equals, greater⟩ (.inl inTag) rest
  have right : ∀ c ∈ a.after, ∀ rest, { scan with place := .beforeValue }.step c rest =
      { scan with place := .beforeValue } := by
    intro c member rest
    obtain ⟨_, greater, double, single⟩ := quiet c (a.blank_after c member)
    have blank := a.blank_after c member
    simp [Scan.step, greater, double, single, blank]
  have equals : scan.feed ('=' :: (a.after ++ a.mark)) =
      { scan with place := .beforeValue }.feed (a.after ++ a.mark) := by
    rw [Scan.feed, if_pos settled.skip, Scan.step, inTag]
    rfl
  have skip : { scan with place := .beforeValue }.skip = 0 := settled.skip
  rw [opening, Scan.feed_append settled.skip left, equals, Scan.feed_append skip right]
  obtain ⟨_, _, quote, _⟩ := a
  cases quote <;> simp [mark, place, Scan.feed, Scan.step, settled.skip]

/-- The scan at a slot that an assignment leads to. -/
theorem scanAt_opening (a : Assignment) (inTag : (s.scanAt before head).place = .tag) :
    s.scanAt before (head ++ a.opening) = { s.scanAt before head with place := a.place } := by
  obtain ⟨c, more, same, unawaited⟩ := a.opening_eq_cons
  have settled := settled_scanFrom (s := s) settled_start before
  have follows : s.scanAt before (head ++ a.opening) = (s.scanAt before head).feed a.opening := by
    rw [same]
    exact unawaited.feed settled.genuine head more
  rw [follows, a.feed_opening (settled_scanAt s before head) inTag]

/-- The joined text of a skeleton with an assignment: its marker is in quotation marks in any
case. -/
theorem join_eq (a : Assignment) (inTag : (s.scanAt before head).place = .tag) (next : Text)
    (rest : List Text) :
    s.join (before ++ (head ++ a.opening) :: (a.mark ++ next) :: rest) =
      s.join (before ++ [head]) ++ (a.before ++ '=' :: (a.after ++ a.written ::
        (s.attributeMarker before.length ++ a.written ::
          s.joinFrom (s.scanAt before head) (before.length + 1) (next :: rest)))) := by
  have bound : before.length + 1 <
      (before ++ (head ++ a.opening) :: (a.mark ++ next) :: rest).length := by simp
  rw [Sentinel.join_eq bound, upTo_eq, beyond_eq, Sentinel.join, joinFrom_concat,
    a.scanAt_opening inTag, opening]
  -- After a quotation mark the segments go on in the tag.
  have follows : ∀ q text, { s.scanAt before head with place := .quoted q }.feed ([q] ++ text) =
      (s.scanAt before head).feed text := by
    intro q text
    have same : { s.scanAt before head with place := .tag } = s.scanAt before head := by
      rw [← inTag]
    rw [List.singleton_append, Scan.feed, if_pos (settled_scanAt s before head).skip]
    simp [Scan.step, same]
  have closes : ∀ q ∈ ['"', '\''], s.joinFrom { s.scanAt before head with place := .quoted q }
      (before.length + 1) (([q] ++ next) :: rest) =
        q :: s.joinFrom (s.scanAt before head) (before.length + 1) (next :: rest) := by
    intro q member
    have other : ∀ q ∈ ['"', '\''], q ≠ '<' ∧ q ≠ '/' := List.all_iff_forall_prop.mp (by decide)
    refine joinFrom_append (follows q) (fun c inside => ?_) s (before.length + 1) next rest
    rw [List.mem_singleton.mp inside]
    exact other q member
  have ends : ∀ segment, s.scanAfter { s.scanAt before head with place := .beforeValue } segment =
      s.scanAt before head := by
    intro segment
    show { s.scanAt before head with place := .tag } = _
    rw [← inTag]
  obtain ⟨left, right, quote, blank⟩ := a
  cases quote with
  | double =>
    simp only [mark, place, written]
    rw [← closes '"' (by simp)]
    simp only [List.append_assoc, List.cons_append]
    rfl
  | single =>
    simp only [mark, place, written]
    rw [← closes '\'' (by simp)]
    simp only [List.append_assoc, List.cons_append]
    rfl
  | none =>
    simp only [mark, place, written]
    rw [edges_of_beforeValue rfl, ends]
    simp only [List.append_assoc, List.cons_append]
    rfl

/-- The marker is read as the value. -/
theorem run_written (a : Assignment) (s : Sentinel) (slot : Nat) (tag : Tag) (name text : Text) :
    (State.beforeValue tag name).run (a.written :: (s.attributeMarker slot ++ a.written :: text)) =
      (State.afterValue (tag.withAttribute name (s.attributeMarker slot))).run text := by
  obtain ⟨_, _, quote, _⟩ := a
  cases quote with
  | single =>
    show (State.value tag name .single []).run (s.attributeMarker slot ++ '\'' :: text) = _
    rw [run_marker]
    rfl
  | _ => exact run_quoted_marker s slot tag name text

/-- The tokens of a skeleton with an assignment. -/
theorem read_eq (a : Assignment) (named : stateBefore s before head = .attributeName tag name)
    (inTag : (s.scanAt before head).place = .tag) (next : Text) (rest : List Text) :
    Token.read (s.join (before ++ (head ++ a.opening) :: (a.mark ++ next) :: rest)) =
      State.data.emitted (markupBefore s before head) ++
        (State.afterValue (tag.withAttribute name (s.attributeMarker before.length))).run
          (normalizeNewlines
            (s.joinFrom (s.scanAt before head) (before.length + 1) (next :: rest))) := by
  have mark : a.written ≠ '\r' ∧ a.written ≠ '\n' := by
    obtain ⟨_, _, quote, _⟩ := a
    cases quote <;> exact ⟨by simp [written], by simp [written]⟩
  have after : State.data.after (markupBefore s before head) = .attributeName tag name := named
  rw [Token.read, a.join_eq inTag, normalizeNewlines_afterName named, State.run_append, after,
    normalizeNewlines_append _ (by decide), normalizeNewlines_cons (by decide),
    normalizeNewlines_append _ mark.2, normalizeNewlines_cons mark.1,
    normalizeNewlines_inert fun c member => (inert_of_mem member).ne.2.2.2.1,
    normalizeNewlines_cons mark.1, State.run_equals (Text.isBlank_normalizeNewlines a.blank_before)
      (Text.isBlank_normalizeNewlines a.blank_after), a.run_written]

end Assignment

/-! ## Main result -/

/-- A slot that is the whole value of an attribute can be written bare, in double or in single
quotation marks, with any blanks around the equals sign: where both the scanner and the tokenizer
are right after the name of the attribute, the skeleton is compiled in the same way, whatever comes
before and after. -/
theorem compile_assignment (named : stateBefore s before head = .attributeName tag name)
    (inTag : (s.scanAt before head).place = .tag) (options : Options) (next : Text)
    (rest : List Text) (a b : Assignment) :
    compile s options Event.source (before ++ (head ++ a.opening) :: (a.mark ++ next) :: rest) =
      compile s options Event.source
        (before ++ (head ++ b.opening) :: (b.mark ++ next) :: rest) := by
  refine compile_congr options (by simp) ?_
  rw [a.read_eq named inTag, b.read_eq named inTag]

/-- `<a href=…>x</a>` and `<a href = '…'>x</a>`. -/
theorem compile_assignment_href :
    compile simplest {} Event.source
        [['<', 'a', ' ', 'h', 'r', 'e', 'f', '='], ['>', 'x', '<', '/', 'a', '>']] =
      compile simplest {} Event.source
        [['<', 'a', ' ', 'h', 'r', 'e', 'f', ' ', '=', '\n', '\''],
          ['\'', '>', 'x', '<', '/', 'a', '>']] :=
  have named : stateBefore simplest [] ['<', 'a', ' ', 'h', 'r', 'e', 'f'] =
      .attributeName ⟨false, ['a'], []⟩ ['h', 'r', 'e', 'f'] := rfl
  compile_assignment named rfl {} ['>', 'x', '<', '/', 'a', '>'] []
    ⟨[], [], .none, List.all_iff_forall_prop.mp rfl⟩
    ⟨[' '], ['\n'], .single, List.all_iff_forall_prop.mp rfl⟩

end Template

end HtmlTemplate
