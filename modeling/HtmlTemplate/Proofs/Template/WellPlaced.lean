import HtmlTemplate.Proofs.Template.Words

/-!
# Slots where a word would be content or a value

A skeleton with words in place of its slots is read by the tokenizer alone. A slot is well-placed if
its word is told of in a text or as the whole value of an attribute of a start tag (`WellPlaced`).
If all slots are, and nothing before the last of them misleads the scanner, then the skeleton
compiles, and its slots are of the kinds that the words show (`Template.compile_wellPlaced`).
-/

namespace HtmlTemplate

/-! ## Words in place of slots -/

/-- What stands in place of a slot: a word, in quotation marks right after the equals sign of an
attribute. -/
def State.stand (state : State) (segment word : Text) : Text :=
  match state with
  | .beforeValue _ _ => if segment.getLast? = some '=' then '"' :: (word ++ ['"']) else word
  | _ => word

/-- The text of a skeleton with words in place of its slots. -/
def State.fill : State → List Text → List Text → Text
  | _, [], _ => []
  | _, segment :: _, [] => segment
  | state, segment :: rest, word :: words =>
    let reached := state.after (normalizeNewlines segment)
    let put := reached.stand segment word
    segment ++ (put ++ fill (reached.after put) rest words)

/-- A word is told of in a text. -/
def State.TellsText (state : State) (word put rest : Text) : Prop :=
  ∃ before tokens, state.run (put ++ rest) = Token.characters (before ++ word) ++ tokens

/-- A word is told of as the whole value of an attribute of a start tag. -/
structure State.TellsValue (state : State) (name word put rest : Text) : Prop where
  /-- The value of an attribute begins here, the first one of this name in the tag. -/
  begins : ∃ tag, (∀ a ∈ tag.attributes, a.name ≠ name) ∧
    (state = beforeValue tag name ∨ ∃ quote, quote ≠ .none ∧ state = value tag name quote [])
  whole : ∃ element attributes selfClosing tokens,
    state.run (put ++ rest) = .startTag element attributes selfClosing :: tokens ∧
      (⟨name, word⟩ : Attribute) ∈ attributes

/-- Each word in place of a slot is told of in a text or as a whole value; with the kinds that the
slots have then. -/
inductive WellPlaced (options : Options) : State → List Text → List Text → List SlotKind → Prop
  | last (state : State) (segment : Text) : WellPlaced options state [segment] [] []
  | content {state reached : State} {segment word put : Text} {rest words : List Text}
      {kinds : List SlotKind} : reached = state.after (normalizeNewlines segment) →
      put = reached.stand segment word → word.IsWord →
      reached.TellsText word put (normalizeNewlines ((reached.after put).fill rest words)) →
      WellPlaced options (reached.after put) rest words kinds →
      WellPlaced options state (segment :: rest) (word :: words) (.content :: kinds)
  | value {state reached : State} {segment word put : Text} {rest words : List Text}
      {kinds : List SlotKind} (name : Text) : reached = state.after (normalizeNewlines segment) →
      put = reached.stand segment word → word.IsWord →
      reached.TellsValue name word put (normalizeNewlines ((reached.after put).fill rest words)) →
      WellPlaced options (reached.after put) rest words kinds →
      WellPlaced options state (segment :: rest) (word :: words)
        (Draft.attributeKind options name :: kinds)

/-- Nothing in front of a slot, nor the word there, misleads the scanner. -/
def State.Leads : State → List Text → List Text → Prop
  | state, segment :: rest, word :: words =>
    let reached := state.after (normalizeNewlines segment)
    let put := reached.stand segment word
    state.Unmisled (normalizeNewlines segment ++ put) ∧ Leads (reached.after put) rest words
  | _, _, _ => True

variable {s : Sentinel} {slot : Nat} {options : Options}

namespace State

variable {state reached : State} {segment word name put rest : Text} {c : Char} {tag : Tag}

theorem stand_cases (reached : State) (segment word : Text) : reached.stand segment word = word ∨
    (∃ tag name, reached = beforeValue tag name) ∧
      reached.stand segment word = '"' :: (word ++ ['"']) := by
  unfold stand
  split
  · split
    · exact .inr ⟨⟨_, _, rfl⟩, rfl⟩
    · exact .inl rfl
  · exact .inl rfl

theorem stand_eq_word (other : ∀ tag name, reached ≠ beforeValue tag name) (segment word : Text) :
    reached.stand segment word = word := by
  rcases stand_cases reached segment word with same | ⟨⟨tag, name, before⟩, _⟩
  · exact same
  · exact absurd before (other tag name)

/-- What stands in place of a slot does not touch line ends. -/
theorem normalizeNewlines_stand (isWord : word.IsWord) (reached : State) (before rest : Text) :
    normalizeNewlines (before ++ (reached.stand segment word ++ rest)) =
      normalizeNewlines before ++ (reached.stand segment word ++ normalizeNewlines rest) := by
  have noReturn : ∀ c ∈ word, c ≠ '\r' := by
    rintro c member rfl
    exact absurd (isWord.2 _ member) (by decide)
  obtain ⟨c, more, rfl, letter, _⟩ := isWord.head
  have notLine : c ≠ '\n' := by
    rintro rfl
    cases letter
  have put : ∃ d other, reached.stand segment (c :: more) = d :: other ∧ d ≠ '\n' ∧
      ∀ e ∈ reached.stand segment (c :: more), e ≠ '\r' := by
    rcases stand_cases reached segment (c :: more) with same | ⟨_, same⟩
    · exact ⟨c, more, same, notLine, by rw [same]; exact noReturn⟩
    · refine ⟨'"', c :: more ++ ['"'], same, by decide, ?_⟩
      rw [same]
      refine List.forall_mem_cons.mpr ⟨by decide, List.forall_mem_append.mpr ⟨noReturn, ?_⟩⟩
      exact List.forall_mem_singleton.mpr (by decide)
  obtain ⟨d, other, same, notLine, noReturn⟩ := put
  have whole := normalizeNewlines_append before notLine (other ++ rest)
  rw [← List.cons_append, ← same, normalizeNewlines_inert noReturn] at whole
  exact whole

theorem normalizeNewlines_fill (isWord : word.IsWord) (state : State) (segment : Text)
    (others words : List Text) :
    normalizeNewlines (state.fill (segment :: others) (word :: words)) =
      normalizeNewlines segment ++ ((state.after (normalizeNewlines segment)).stand segment word ++
        normalizeNewlines (((state.after (normalizeNewlines segment)).after
          ((state.after (normalizeNewlines segment)).stand segment word)).fill others words)) :=
  normalizeNewlines_stand isWord _ segment _

/-! ## Slots in content -/

/-- The scanner is in content where the tokenizer is. -/
inductive Shows (state : State) : Scan → Prop
  | ordinary {name : Text} {closing : Bool} :
      Ordinary state → Shows state ⟨.content, name, closing, 0⟩
  | raw {name element : Text} {closing : Bool} {content : RawContent} : InRaw state content →
      content.element = element → Vocabulary.isRawText element = true →
      Shows state ⟨.rawText element, name, closing, 0⟩

theorem shows_of_sees {scan : Scan} (sees : Scan.Sees [] scan state) (unmarked : ¬ InMark state)
    (unopened : ¬ (state = tagOpen ∨ state = endTagOpen)) (letter : Text.isLetter c = true)
    (fine : ¬ Misleads state c rest) : Shows state scan := by
  have inTag : ∀ {tag}, state.tag? = some tag → Shows state scan := fun reading =>
    absurd (.tag reading) unmarked
  cases sees with
  | data => exact .ordinary .text
  | reference ref => exact .ordinary (.within ref)
  | less none => exact absurd (.inl rfl) unopened
  | slash none => exact absurd (.inr rfl) unopened
  | declaration seen none => exact absurd (.remark (.declaration seen)) unmarked
  | bogusComment data => exact absurd (.remark (.bogus data)) unmarked
  | doctype phase word => exact absurd (.doctype phase word) unmarked
  | commentLess same => cases same
  | commentMark same => cases same
  | commentDash same => cases same
  | comment phase data looked => exact absurd (.remark (.comment phase data)) unmarked
  | lastDash data same dash => cases same
  | lastMark data same => cases same
  | startTag first => cases first
  | endTagLess same first => cases same
  | endTag first => cases first
  | tagName tag => exact inTag rfl
  | oddName side odd => exact inTag rfl
  | tag inside knows => cases inside <;> exact inTag rfl
  | beforeValue key knows => exact inTag rfl
  | quoted key value position encloses knows => exact inTag (tag?_inValue _ _ _ _ _)
  | unquoted key value position knows => exact inTag (tag?_inValue _ _ _ _ _)
  | raw isOpen isRaw => exact .raw (.content isOpen) (calm_element _) isRaw
  | rawReference ref isRaw => exact .raw (.reference _ ref) rfl isRaw
  | rawLess held isRaw none => exact .raw (.less held) (calm_element _) isRaw
  | rawEndOpen held isRaw none => exact .raw (.endOpen held) (calm_element _) isRaw
  | rawEndName letters held isRaw none => exact .raw (.endName letters held) (calm_element _) isRaw
  | closingLess isRaw found => cases found
  | closingOpen isRaw spelled =>
    rw [← Scan.spelled_nil.mp spelled] at isRaw
    cases isRaw
  | closingName letters isRaw spelled =>
    -- The scanner takes the name of the end tag to be complete, but the word goes on with it.
    obtain ⟨_, greater, slash, _, _, _, _, _, blank⟩ := Text.facts_of_isLetter letter
    refine absurd (.endName (Scan.spelled_nil.mp spelled) ?_) fine
    simp [endsWord, greater, slash, blank]

/-- No less-than sign leads to ordinary text, and no slash does from a mark. -/
theorem Ordinary.of_step (mark : c = '<' ∨ c = '/') (h : Ordinary (state.step c).1) :
    Ordinary state ∧ c = '/' := by
  have greater : c ≠ '>' := by rcases mark with rfl | rfl <;> decide
  have ampersand : c ≠ '&' := by rcases mark with rfl | rfl <;> decide
  have data : ¬ Ordinary (stepData '<').1 := fun h => by cases h
  have raw : ∀ {content pending held}, Raw state content pending held →
      Ordinary state ∧ c = '/' := by
    intro content pending held isRaw
    have move := step_raw isRaw c
    generalize state.step c = next at move h
    cases move with
    | on on =>
      obtain ⟨content', held', isRaw', _⟩ := on.goes
      cases h <;> cases isRaw'
    | attributes => cases h
    | slash => cases h
    | closes last => exact absurd last greater
  cases state with
  | data =>
    rcases mark with rfl | rfl
    · exact absurd h data
    · exact ⟨.text, rfl⟩
  | raw content => exact raw (.plain content)
  | rawLess content => exact raw (.less content)
  | rawEndOpen content => exact raw (.endOpen content)
  | rawEndName content letters => exact raw (.endName content letters)
  | reference target ref =>
    cases target with
    | data =>
      refine ⟨.within ref, mark.resolve_left ?_⟩
      rintro rfl
      obtain ⟨shown, ends⟩ := ref.step_of_mark (.inl rfl) false
      replace h : Ordinary (stepReference .data ref '<').1 := h
      rw [stepReference, show ReferenceTarget.inAttribute .data = false from rfl, ends] at h
      exact data h
    | raw element => exact raw (.reference element ref)
    | value tag name quote v =>
      have other : quote.ends c = false := by
        rcases mark with rfl | rfl <;> cases quote <;> rfl
      obtain ⟨v', position', next⟩ := step_inValue_goesOn other tag name v (some ref)
      replace h : Ordinary ((inValue tag name quote v (some ref)).step c).1 := h
      rw [next] at h
      cases position' <;> cases h
  | tagOpen => rcases mark with rfl | rfl <;> cases h
  | endTagOpen => rcases mark with rfl | rfl <;> cases h
  | tagName tag => rcases mark with rfl | rfl <;> cases h
  | beforeName tag => rcases mark with rfl | rfl <;> cases h
  | attributeName tag name => rcases mark with rfl | rfl <;> cases h
  | afterName tag name => rcases mark with rfl | rfl <;> cases h
  | beforeValue tag name => rcases mark with rfl | rfl <;> cases h
  | value tag name quote text => rcases mark with rfl | rfl <;> cases quote <;> cases h
  | afterValue tag => rcases mark with rfl | rfl <;> cases h
  | selfClosing tag => rcases mark with rfl | rfl <;> cases h
  | declaration seen =>
    have move := step_remark (.declaration seen) c
    generalize step (.declaration seen) c = next at move h
    cases move with
    | on isRemark => cases h <;> cases isRemark
    | comment => cases h
    | doctype => cases h
    | closes last _ => exact absurd last greater
  | comment phase text => rcases mark with rfl | rfl <;> cases phase <;> cases h
  | bogusComment text => rcases mark with rfl | rfl <;> cases h
  | doctype phase name => rcases mark with rfl | rfl <;> cases phase <;> cases h

/-- In ordinary text nothing opens a tag. -/
theorem not_opensTag (h : Ordinary (state.after (normalizeNewlines segment))) :
    Sentinel.opensTag segment = false := by
  have last : ∀ front d, segment = front ++ [d] → d = '<' ∨ d = '/' →
      Ordinary (state.after (normalizeNewlines front)) ∧ d = '/' := by
    rintro front d rfl mark
    have notLine : d ≠ '\n' := by
      rintro rfl
      rcases mark with same | same <;> cases same
    have notReturn : d ≠ '\r' := by
      rintro rfl
      rcases mark with same | same <;> cases same
    rw [normalizeNewlines_append front notLine, normalizeNewlines_cons notReturn, after_append] at h
    exact h.of_step mark
  rw [Bool.eq_false_iff]
  intro opens
  rcases Bool.or_eq_true_iff.mp opens with less | slash
  · obtain ⟨after, same⟩ := Text.startsWith_eq_true.mp less
    have split : segment = after.reverse ++ ['<'] := by simpa using same
    exact absurd (last _ _ split (.inl rfl)).2 (by decide)
  · obtain ⟨after, same⟩ := Text.startsWith_eq_true.mp slash
    have split : segment = (after.reverse ++ ['<']) ++ ['/'] := by simpa using same
    have before := (last _ _ split (.inr rfl)).1
    rw [normalizeNewlines_append _ (by decide), after_append] at before
    exact absurd (before.of_step (.inl rfl)).2 (by decide)

end State

namespace Sentinel

variable {state state' : State} {scan : Scan} {segment word name put rest : Text} {c : Char}

theorem edges_of_shows (s : Sentinel) (shows : State.Shows state scan) (segment : Text)
    (ordinary : State.Ordinary state → opensTag segment = false) :
    edges scan segment = (['<', '!', '-', '-'], ['-', '-', '>']) ∧
    s.scanAfter scan segment = scan := by
  cases shows with
  | ordinary h =>
    have closed := ordinary h
    constructor
    · simp [edges, closed]
    · simp [scanAfter, hold, closed]
  | raw h same isRaw => exact ⟨rfl, rfl⟩

/-- Where a word would be content, a marker is, and the readings go on side by side. -/
theorem content_slot (s : Sentinel) (slot : Nat) {before : State} (sees : Scan.Sees [] scan state')
    (reached : state' = before.after (normalizeNewlines segment))
    (beside : State.Beside (word ++ rest) state state') (isWord : word.IsWord)
    (told : ∃ before tokens, state.run (word ++ rest) = Token.characters (before ++ word) ++ tokens)
    (fine : ∀ c after, word = c :: after → ¬ State.Misleads state' c after) :
    ∃ next, State.TakesContent s slot state' next ∧
      edges scan segment = (['<', '!', '-', '-'], ['-', '-', '>']) ∧
      State.Beside rest (state.after word) next ∧
      ∀ text, Scan.Sees text (s.scanAfter scan segment) next := by
  obtain ⟨c, others, same, letter, _⟩ := isWord.head
  have told : ∃ d tokens, state.run (word ++ rest) = .character d :: tokens := by
    obtain ⟨before, tokens, told⟩ := told
    cases before with
    | nil => exact ⟨c, _, by rw [told, same]; rfl⟩
    | cons d before => exact ⟨d, _, told⟩
  obtain ⟨d, tokens, told'⟩ := told
  have unmarked : ¬ State.InMark state' := fun inMark =>
    State.run_inMark_ne_character (beside.inMark inMark) _ d tokens told'
  have unopened : ¬ (state' = .tagOpen ∨ state' = .endTagOpen) := by
    intro opened
    have here : state = .tagOpen ∨ state = .endTagOpen := by
      rcases opened with rfl | rfl <;> cases beside with
      | alike alike => cases alike; simp
      | deeper deeper => cases deeper
    rw [same] at told'
    exact State.run_open_ne_character here letter _ d tokens told'
  have shows := State.shows_of_sees sees unmarked unopened letter (fine c others same)
  obtain ⟨marks, stays⟩ := edges_of_shows s shows segment fun h => State.not_opensTag (reached ▸ h)
  rw [stays]
  cases shows with
  | ordinary h =>
    exact ⟨.data, h.takesContent s slot, marks, (beside.ordinary h).beside_word isWord.2 rest,
      fun _ => .data⟩
  | @raw name element closing content h element' isRaw =>
    subst element'
    exact ⟨.raw content, h.takesContent s slot, marks,
      (beside.inRaw h).beside_word isWord ⟨d, tokens, told'⟩, fun _ => .raw h.isOpen isRaw⟩

/-- A tag that is told of tells of the markers that it has as values. -/
theorem tells_of_tag {tag : Tag} {held : List (Nat × Text)} (reading : state'.tag? = some tag)
    (opens : tag.closing = false) (some : state'.run rest ≠ [])
    (has : ∀ entry ∈ held, (⟨entry.2, s.attributeMarker entry.1⟩ : Attribute) ∈ tag.attributes) :
    Token.Tells s held (state'.run rest) := by
  rcases State.run_tag reading rest with none | ⟨tag', closesItself, tokens, told, grows⟩
  · exact absurd none some
  · have token : tag'.token closesItself = .startTag tag'.name tag'.attributes closesItself := by
      unfold Tag.token
      rw [grows.closing, opens]
      rfl
    exact ⟨_, _, _, tokens, by rw [told, token],
      fun entry member => grows.attributes _ (has entry member)⟩

/-- A slot where a word is a whole value: a marker is one too, and the readings go on side by
side. -/
structure ValueSlot (s : Sentinel) (slot : Nat) (name : Text) (state' : State) (scan : Scan)
    (segment : Text) (after : State) (rest : Text) (next : State) : Prop where
  takes : State.TakesValue s slot name state' (edges scan segment) next
  beside : State.Beside rest after next
  sees (text : Text) : Scan.Sees text (s.scanAfter scan segment) next
  inTag : ∃ tag, next.tag? = some tag
  /-- The marker is told of if anything is, and if the text goes on like that with the word. -/
  tells {text : Text} : next.run text ≠ [] → (∀ c more, rest = c :: more → Text.isLetter c = false →
    ∃ more', text = c :: more') → Token.Tells s [(slot, name)] (next.run text)

section Values

variable {tag tag' : Tag} {quote : Quote} {after : State}

theorem new_of_alike (alike : Tag.Alike Text.nothing tag tag')
    (new : ∀ a ∈ tag.attributes, a.name ≠ name) : ∀ a ∈ tag'.attributes, a.name ≠ name := by
  have names : tag.attributes.map Attribute.name = tag'.attributes.map Attribute.name := by
    have same := congrArg (List.map Attribute.name) alike.attributes
    rw [List.map_map, List.map_map] at same
    exact same
  intro a member same
  have inside : name ∈ tag.attributes.map Attribute.name := by
    rw [names, ← same]
    exact List.mem_map_of_mem member
  obtain ⟨b, known, same⟩ := List.mem_map.mp inside
  exact new b known same

theorem tells_afterValue (alike : Tag.Alike Text.nothing tag tag')
    (new : ∀ a ∈ tag.attributes, a.name ≠ name) (opens : tag.closing = false) {text : Text}
    (some : (State.afterValue (tag'.withAttribute name (s.attributeMarker slot))).run text ≠ []) :
    Token.Tells s [(slot, name)]
      ((State.afterValue (tag'.withAttribute name (s.attributeMarker slot))).run text) :=
  tells_of_tag rfl (alike.closing.symm.trans opens) some
    (List.forall_mem_singleton.mpr (State.mem_withAttribute (new_of_alike alike new) _))

theorem valueSlot_beforeValue (alike : Tag.Alike Text.nothing tag tag')
    (sees : Scan.Sees [] scan (.beforeValue tag' name)) (new : ∀ a ∈ tag.attributes, a.name ≠ name)
    (opens : tag.closing = false) (segment : Text)
    (beside : State.Beside rest after
      (.afterValue (tag'.withAttribute name (s.attributeMarker slot)))) :
    ValueSlot s slot name (.beforeValue tag' name) scan segment after rest
      (.afterValue (tag'.withAttribute name (s.attributeMarker slot))) := by
  generalize reading : State.beforeValue tag' name = reached at sees
  cases sees with
  | beforeValue key knows =>
    cases reading
    exact ⟨.assigned tag', beside,
      fun _ => .tag (.afterValue _) (knows.withAttribute _ _), ⟨_, rfl⟩,
      fun some _ => tells_afterValue alike new opens some⟩
  | tag inside knows => cases inside <;> cases reading
  | quoted key value position encloses knows => cases position <;> cases reading
  | unquoted key value position knows => cases position <;> cases reading
  | _ => cases reading

theorem valueSlot_value (alike : Tag.Alike Text.nothing tag tag') (quoted : quote ≠ .none)
    (sees : Scan.Sees [] scan (.value tag' name quote []))
    (new : ∀ a ∈ tag.attributes, a.name ≠ name) (opens : tag.closing = false) (segment : Text)
    (ends : ∃ c more, rest = c :: more ∧ quote.ends c = true) :
    ValueSlot s slot name (.value tag' name quote []) scan segment (.value tag name quote word) rest
      (.value tag' name quote (s.attributeMarker slot)) := by
  have beside : State.Beside rest (.value tag name quote word)
      (.value tag' name quote (s.attributeMarker slot)) := .value name alike ends
  have tells : ∀ {text : Text},
      (State.value tag' name quote (s.attributeMarker slot)).run text ≠ [] →
      (∀ c more, rest = c :: more → Text.isLetter c = false → ∃ more', text = c :: more') →
      Token.Tells s [(slot, name)]
        ((State.value tag' name quote (s.attributeMarker slot)).run text) := by
    intro text some same
    obtain ⟨c, more, first, ends⟩ := ends
    have other : Text.isLetter c = false := by
      rw [Bool.eq_false_iff]
      intro letter
      rw [Quote.ends_of_isLetter letter] at ends
      cases ends
    obtain ⟨more', rfl⟩ := same c more first other
    obtain ⟨later, left⟩ :=
      State.run_leaveValue ends (tag'.withAttribute name (s.attributeMarker slot)) more'
    rw [State.run_value_mark ends, left] at some ⊢
    exact tells_afterValue alike new opens some
  generalize reading : State.value tag' name quote [] = reached at sees
  cases sees with
  | @quoted nm closing _ _ mark key v position encloses knows =>
    cases position with
    | some ref => cases reading
    | none =>
      cases reading
      exact ⟨.begun tag' quote, beside, fun _ => .quoted _ _ none encloses knows, ⟨_, rfl⟩, tells⟩
  | @unquoted nm closing _ key v position knows =>
    cases position with
    | some ref => cases reading
    | none =>
      cases reading
      exact absurd rfl quoted
  | tag inside knows => cases inside <;> cases reading
  | _ => cases reading

/-- Side by side with the beginning of a value there is the beginning of a value. -/
theorem exists_of_beside_beforeValue {text : Text}
    (beside : State.Beside text (.beforeValue tag name) state') :
    ∃ tag', state' = .beforeValue tag' name ∧ Tag.Alike Text.nothing tag tag' := by
  cases beside with
  | alike alike =>
    cases alike with
    | same => exact ⟨tag, rfl, .refl tag⟩
    | beforeValue alike => exact ⟨_, rfl, alike⟩
  | deeper deeper => cases deeper

theorem exists_of_beside_value (quoted : quote ≠ .none) (letter : Text.isLetter c = true)
    (beside : State.Beside (c :: rest) (.value tag name quote []) state') :
    ∃ tag', state' = .value tag' name quote [] ∧ Tag.Alike Text.nothing tag tag' := by
  cases beside with
  | alike alike =>
    cases alike with
    | same => exact ⟨tag, rfl, .refl tag⟩
    | value alike => exact ⟨_, rfl, alike⟩
  | deeper deeper => cases deeper
  | value name alike ends =>
    obtain ⟨d, more, same, ends⟩ := ends
    obtain ⟨rfl, _⟩ := List.cons.inj same
    rw [Quote.ends_of_isLetter letter] at ends
    cases ends
  | unquoted name alike ends => exact absurd rfl quoted

/-- A word right after an equals sign is read as a value, with quotation marks of its own or
without. -/
theorem reads_assigned (isWord : word.IsWord) (tag : Tag) (name segment : Text) :
    ∃ next, (State.beforeValue tag name).Reads
      ((State.beforeValue tag name).stand segment word) [] next ∧
      (next = .afterValue (tag.withAttribute name word) ∨ next = .value tag name .none word) := by
  have letters := isWord.2
  rcases State.stand_cases (.beforeValue tag name) segment word with same | ⟨_, same⟩
  · refine ⟨.value tag name .none word, ?_, .inr rfl⟩
    rw [same]
    obtain ⟨c, others, rfl, letter, _⟩ := isWord.head
    obtain ⟨_, greater, _, _, _, _, double, single, blank⟩ := Text.facts_of_isLetter letter
    have first : (State.beforeValue tag name).step c = (State.value tag name .none []).step c := by
      show State.stepBeforeValue tag name c = State.stepValue tag name .none [] c
      simp only [State.stepBeforeValue, blank, double, single, greater, if_false,
        Bool.false_eq_true]
    have reads := State.reads_word letters tag name .none
    constructor
    · rw [State.emitted, first, ← reads.told]
      rfl
    · rw [State.after, first, ← reads.reached]
      rfl
  · refine ⟨.afterValue (tag.withAttribute name word), ?_, .inl rfl⟩
    rw [same]
    have opening : State.Reads (.beforeValue tag name) ['"'] [] (.value tag name .double []) :=
      ⟨rfl, rfl⟩
    have ending : State.Reads (.value tag name .double word) ['"'] []
        (.afterValue (tag.withAttribute name word)) := ⟨rfl, rfl⟩
    exact opening.append ((State.reads_word letters tag name .double).append ending)

/-- Where a word would be a whole value, a marker is one. -/
theorem value_slot (s : Sentinel) (slot : Nat) (sees : Scan.Sees [] scan state')
    (beside : State.Beside (state.stand segment word ++ rest) state state') (named : state.Named)
    (isWord : word.IsWord) (told : state.TellsValue name word (state.stand segment word) rest) :
    state.emitted (state.stand segment word) = [] ∧
      (∀ tag key, state.after (state.stand segment word) ≠ .beforeValue tag key) ∧
      ∃ next, ValueSlot s slot name state' scan segment (state.after (state.stand segment word))
        rest next := by
  obtain ⟨⟨tag, new, place⟩, element, attributes, selfClosing, tokens, run, inside⟩ := told
  rcases place with rfl | ⟨quote, quoted, rfl⟩
  · obtain ⟨tag', rfl, alike⟩ := exists_of_beside_beforeValue beside
    have opens : tag.closing = false := (State.attributes_of_run rfl run).1
    obtain ⟨next, reads, which⟩ := reads_assigned isWord tag name segment
    have named' : next.Named := reads.reached ▸ State.named_after named _
    rw [reads.told, reads.reached]
    rw [reads.run, List.nil_append] at run
    rcases which with rfl | rfl
    · exact ⟨rfl, (fun _ _ same => by cases same), _,
        valueSlot_beforeValue alike sees new opens segment
        (.alike (.afterValue (alike.withAttribute name rfl)))⟩
    · exact ⟨rfl, (fun _ _ same => by cases same), _,
        valueSlot_beforeValue alike sees new opens segment
        (.unquoted name alike (State.ends_of_whole named' new run inside))⟩
  · have stand : (State.value tag name quote []).stand segment word = word :=
      State.stand_eq_word (fun _ _ same => by cases same) segment word
    have reads := State.reads_word isWord.2 tag name quote
    have named' := State.named_after named word
    obtain ⟨c, others, same, letter, _⟩ := isWord.head
    rw [stand] at beside run ⊢
    have opens : tag.closing = false := (State.attributes_of_run rfl run).1
    obtain ⟨tag', rfl, alike⟩ :=
      exists_of_beside_value quoted letter (by rw [same] at beside; exact beside)
    rw [reads.run, List.nil_append] at run
    rw [reads.reached] at named' ⊢
    exact ⟨reads.told, (fun _ _ same => by cases same), _,
      valueSlot_value alike quoted sees new opens segment
      (State.ends_of_whole named' new run inside)⟩

end Values

/-! ## Skeletons -/

/-- At a slot, what holds at the beginning of the segment holds again. -/
theorem before_slot
    (beside : State.Beside (normalizeNewlines segment ++ (put ++ rest)) state state')
    (sees : ∀ text, Scan.Sees text scan state')
    (unmisled : state.Unmisled (normalizeNewlines segment ++ put)) :
    State.Beside (put ++ rest) (state.after (normalizeNewlines segment))
        (state'.after (normalizeNewlines segment)) ∧
      Scan.Sees [] (scan.feed segment) (state'.after (normalizeNewlines segment)) ∧
      ∀ c after, put = c :: after →
        ¬ State.Misleads (state'.after (normalizeNewlines segment)) c after := by
  have stays : ∀ before c after, normalizeNewlines segment = before ++ c :: after →
      ¬ State.Misleads (state.after before) c after := by
    intro before c after split misleads
    refine unmisled.apart before c (after ++ put) ?_ (misleads.append put)
    rw [split, List.append_assoc]
    rfl
  obtain ⟨beside', fine⟩ := beside.after stays
  refine ⟨beside', (sees _).feed fine, fun c after same misleads => ?_⟩
  subst same
  exact unmisled.apart _ c after rfl (State.Beside.misleads beside' misleads)

section Filled

variable {options : Options} {segments words : List Text} {kinds : List SlotKind}

/-- A text that begins with something other than a letter begins so whatever stands in its slots. -/
theorem head_of_fill {more : Text} (placed : WellPlaced options state segments words kinds)
    (scan : Scan) (slot : Nat) (other : ∀ tag key, state ≠ .beforeValue tag key)
    (notLetter : Text.isLetter c = false)
    (same : normalizeNewlines (state.fill segments words) = c :: more) :
    ∃ more', normalizeNewlines (s.joinFrom scan slot segments) = c :: more' := by
  have slot' : ∀ {segment word rest words kinds}, word.IsWord →
      WellPlaced options ((state.after (normalizeNewlines segment)).after
        ((state.after (normalizeNewlines segment)).stand segment word)) rest words kinds →
      normalizeNewlines (state.fill (segment :: rest) (word :: words)) = c :: more →
      ∃ more', normalizeNewlines (s.joinFrom scan slot (segment :: rest)) = c :: more' := by
    intro segment word rest words kinds isWord placed same
    have some : rest ≠ [] := by
      rintro rfl
      cases placed
    rw [State.normalizeNewlines_fill isWord] at same
    rw [normalizeNewlines_joinFrom s scan slot segment some]
    cases whole : normalizeNewlines segment with
    | nil =>
      obtain ⟨d, others, rfl, letter, _⟩ := isWord.head
      have stand : (state.after []).stand segment (d :: others) = d :: others :=
        State.stand_eq_word other segment (d :: others)
      rw [whole, stand] at same
      rw [(List.cons.inj same).1, notLetter] at letter
      cases letter
    | cons d others =>
      rw [whole] at same
      exact ⟨_, by rw [(List.cons.inj same).1]; rfl⟩
  cases placed with
  | last _ segment => exact ⟨more, same⟩
  | content reaches stands isWord told placed =>
    subst reaches stands
    exact slot' isWord placed same
  | value name reaches stands isWord told placed =>
    subst reaches stands
    exact slot' isWord placed same

/-- Where all slots are well-placed and nothing misleads the scanner, all markers fit. In a tag the
end of the skeleton is told of as it is with the words. -/
theorem fits_of_wellPlaced (placed : WellPlaced options state segments words kinds) (slot : Nat)
    (leads : state.Leads segments words) (named : state.Named)
    (sees : ∀ text, Scan.Sees text scan state')
    (beside : State.Beside (normalizeNewlines (state.fill segments words)) state state') :
    s.Fits options state' scan slot segments kinds ∧ ((∃ tag, state'.tag? = some tag) →
      state.run (normalizeNewlines (state.fill segments words)) ≠ [] →
      state'.run (normalizeNewlines (s.joinFrom scan slot segments)) ≠ []) := by
  induction placed generalizing state' scan slot with
  | last state segment =>
    exact ⟨.last state' scan slot segment, fun ⟨_, inTag⟩ some => beside.run_ne_nil inTag some⟩
  | @content state reached segment word put rest words kinds reaches stands isWord told placed ih =>
    subst reaches
    have stand : put = word := by
      rw [stands]
      refine State.stand_eq_word (fun tag key before => ?_) segment word
      obtain ⟨c, others, same, _⟩ := isWord.head
      obtain ⟨front, tokens, told⟩ := told
      rw [before] at told
      cases front with
      | nil =>
        rw [same] at told
        exact State.run_inMark_ne_character (.tag rfl) _ c _ told
      | cons d front => exact State.run_inMark_ne_character (.tag rfl) _ d _ told
    rw [State.normalizeNewlines_fill isWord, ← stands] at beside
    obtain ⟨beside', sees', fine⟩ := before_slot beside sees (stands ▸ leads.1)
    rw [stand] at told beside' fine
    obtain ⟨next, takes, marks, beside'', sees''⟩ :=
      content_slot s slot sees' rfl beside' isWord told fine
    have leads' := leads.2
    rw [← stands, stand] at leads'
    rw [stand] at ih placed
    have fits :=
      (ih (slot + 1) leads' (State.named_after (State.named_after named _) _) sees'' beside'').1
    refine ⟨.content marks takes fits, fun _ _ none => ?_⟩
    obtain ⟨token, tokens, reads⟩ := takes.exists_reads
    have marker : ['<', '!', '-', '-'] ++ (s.attributeMarker slot ++ ['-', '-', '>']) =
        s.commentMarker slot := by simp [commentMarker]
    rw [run_joinFrom fits.ne_nil marks (marker ▸ reads)] at none
    cases (List.append_eq_nil_iff.mp none).2
  | @value state reached segment word put rest words kinds name reaches stands isWord told
      placed ih =>
    subst reaches stands
    rw [State.normalizeNewlines_fill isWord] at beside
    obtain ⟨beside', sees', fine⟩ := before_slot beside sees leads.1
    have named' := State.named_after named (normalizeNewlines segment)
    obtain ⟨silent, other, next, valueSlot⟩ :=
      value_slot s slot sees' beside' named' isWord told
    obtain ⟨fits, told'⟩ := ih (slot + 1) leads.2 (State.named_after named' _) valueSlot.sees
      valueSlot.beside
    obtain ⟨element, attributes, selfClosing, tokens, run, _⟩ := told.whole
    rw [State.run_append, silent, List.nil_append] at run
    have some := told' valueSlot.inTag (by rw [run]; exact List.cons_ne_nil _ _)
    have tells := valueSlot.tells some fun c more same notLetter =>
      head_of_fill placed _ _ other notLetter same
    refine ⟨.value name valueSlot.takes tells fits, fun _ _ none => ?_⟩
    rw [run_joinFrom fits.ne_nil rfl valueSlot.takes.reads, List.nil_append] at none
    exact some (List.append_eq_nil_iff.mp none).2

end Filled

end Sentinel

namespace Template

/-- Well-placed slots compile: if each slot of a skeleton without the token is one where a word is
told of in a text or as a whole value, and nothing before the last slot misleads the scanner, then
the skeleton compiles, and each slot is of the kind that its word shows. Slot numbers are machine
words. -/
theorem compile_wellPlaced {segments words : List Text} {kinds : List SlotKind}
    (absent : ∀ segment ∈ segments, s.Absent (normalizeNewlines segment))
    (bound : segments.length ≤ Text.wordBound)
    (placed : WellPlaced options .data segments words kinds)
    (leads : State.data.Leads segments words) :
    ∃ template, (compile s options Event.source segments).result = .ok template ∧
      template.slots = kinds :=
  compile_of_fits absent bound
    (Sentinel.fits_of_wellPlaced placed 0 leads trivial (fun _ => .data) (.same _ _)).1

/-- The slot is well-placed, but for the scanner the script goes on after its start tag. -/
example : (compile simplest {} Event.source ["<script/><a href=".toList, ">x</a>".toList]).result =
    .error (.partialAttribute "href".toList 0) := rfl

theorem wellPlaced_paragraph : WellPlaced {} .data ["<p class=".toList, ">a".toList, "</p>".toList]
    [['w'], ['v']] [.generic, .content] := by
  refine .value "class".toList rfl rfl (by decide) ⟨⟨⟨false, ['p'], []⟩, by simp, .inl rfl⟩,
    ['p'], [⟨"class".toList, ['w']⟩], false, _, rfl, by simp⟩ ?_
  refine .content rfl rfl (by decide) ⟨[], _, rfl⟩ ?_
  exact .last _ _

/-- A slot in an attribute and one in content. -/
theorem compile_wellPlaced_paragraph : ∃ template,
    (compile simplest {} Event.source ["<p class=".toList, ">a".toList, "</p>".toList]).result =
      .ok template ∧ template.slots = [.generic, .content] := by
  have leads :
      State.data.Leads ["<p class=".toList, ">a".toList, "</p>".toList] [['w'], ['v']] := by
    refine ⟨?_, ?_, trivial⟩
    · decide
    · decide
  exact compile_wellPlaced (by decide) (by decide) wellPlaced_paragraph leads

end Template

end HtmlTemplate
