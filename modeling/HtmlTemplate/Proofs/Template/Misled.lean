import HtmlTemplate.Proofs.Markup.Open
import HtmlTemplate.Proofs.Template.Scan

/-!
# What misleads the scanner

The scanner that places the markers takes most characters as the tokenizer does. `State.Misleads`
lists those that it does not: the tokenizer ends a comment where the scanner goes on in it, takes an
equals sign for a part of a name, takes a start tag of a `script` to be closed by itself, reads
another name than the scanner does, or does not take for a tag what looks like one. A text is
`State.Unmisled` if it has none of them; both can be decided.
-/

namespace HtmlTemplate

namespace Scan

/-! ## Looking ahead -/

/-- A tag or a comment begins with a less-than sign before this text, for the scanner. -/
def begins (rest : Text) : Bool :=
  Text.startsWith ['!', '-', '-'] rest || startsWithLetter rest ||
    (Text.startsWith ['/'] rest && startsWithLetter (rest.drop 1))

/-- The end tag of an element begins with a less-than sign before this text, for the scanner. -/
def closes (element rest : Text) : Bool :=
  Text.startsWith ('/' :: element) (Text.lower (rest.take (element.length + 1)))

/-- The letters of an element come next. -/
def Spelled (element letters rest : Text) : Prop :=
  ∃ more after, rest = more ++ after ∧ Text.lower (letters ++ more) = element

variable {element letters rest more : Text} {c : Char}

theorem begins_append (h : begins rest = true) (more : Text) : begins (rest ++ more) = true := by
  unfold begins at h ⊢
  simp only [Bool.or_eq_true, Bool.and_eq_true, Text.startsWith_eq_true] at h ⊢
  rcases h with (⟨after, rfl⟩ | letter) | ⟨⟨after, rfl⟩, letter⟩
  · exact .inl (.inl ⟨after ++ more, List.append_assoc _ _ _⟩)
  · cases rest with
    | nil => cases letter
    | cons c rest => exact .inl (.inr letter)
  · cases after with
    | nil => cases letter
    | cons c after => exact .inr ⟨⟨_, rfl⟩, letter⟩

/-- What the scanner takes for the beginning of a tag or a comment. -/
inductive Begins : Text → Prop
  | comment (after : Text) : Begins ('!' :: '-' :: '-' :: after)
  | start {c : Char} (after : Text) : Text.isLetter c = true → Begins (c :: after)
  | ends {c : Char} (after : Text) : Text.isLetter c = true → Begins ('/' :: c :: after)

theorem begins_of_eq_true (h : begins rest = true) : Begins rest := by
  unfold begins at h
  simp only [Bool.or_eq_true, Bool.and_eq_true, Text.startsWith_eq_true] at h
  rcases h with (⟨after, rfl⟩ | letter) | ⟨⟨after, rfl⟩, letter⟩
  · exact .comment after
  · cases rest with
    | nil => cases letter
    | cons c rest => exact .start rest letter
  · cases after with
    | nil => cases letter
    | cons c after => exact .ends after letter

theorem closes_iff : closes element rest = true ↔
    ∃ after, rest = '/' :: after ∧ Spelled element [] after := by
  unfold closes
  rw [Text.startsWith_eq_true]
  constructor
  · rintro ⟨extra, same⟩
    have count := congrArg List.length same
    rw [Text.lower, List.length_map, List.length_take, List.length_append, List.length_cons]
      at count
    obtain rfl : extra = [] := List.length_eq_zero_iff.mp (by omega)
    cases rest with
    | nil => cases same
    | cons c rest =>
      rw [List.take_succ_cons, List.append_nil] at same
      obtain ⟨slash, letters⟩ := List.cons.inj (same : Text.lowerChar c :: Text.lower _ = _)
      exact ⟨rest, by rw [Text.lowerChar_of_ne slash (by decide)], _, _,
        (List.take_append_drop element.length rest).symm, letters⟩
  · rintro ⟨after, rfl, more, last, rfl, rfl⟩
    have count : (Text.lower more).length = more.length := List.length_map _
    refine ⟨[], ?_⟩
    rw [List.nil_append, count, List.take_succ_cons, List.take_left, List.append_nil]
    rfl

theorem spelled_cons : Spelled element letters (c :: rest) ↔
    Text.lower letters = element ∨ Spelled element (letters ++ [c]) rest := by
  constructor
  · rintro ⟨more, after, split, same⟩
    cases more with
    | nil =>
      rw [List.append_nil] at same
      exact .inl same
    | cons d more =>
      obtain ⟨rfl, later⟩ := List.cons.inj split
      exact .inr ⟨more, after, later, by rw [List.append_assoc]; exact same⟩
  · rintro (same | ⟨more, after, rfl, same⟩)
    · exact ⟨[], _, rfl, by rw [List.append_nil]; exact same⟩
    · exact ⟨c :: more, after, rfl, by rw [List.append_assoc] at same; exact same⟩

theorem spelled_nil : Spelled element letters [] ↔ Text.lower letters = element := by
  constructor
  · rintro ⟨more, after, split, same⟩
    obtain ⟨rfl, -⟩ := List.append_eq_nil_iff.mp split.symm
    rw [List.append_nil] at same
    exact same
  · intro same
    exact ⟨[], [], rfl, by rw [List.append_nil]; exact same⟩

end Scan

/-! ## What misleads -/

namespace State

/-- Where a less-than sign begins nothing for the tokenizer. -/
inductive Deaf : State → Prop
  | endTagOpen : Deaf endTagOpen
  | declaration (seen : Text) : Deaf (declaration seen)
  | bogusComment (data : Text) : Deaf (bogusComment data)
  | doctype (phase : DoctypePhase) (name : Text) : Deaf (doctype phase name)

/-- In a tag, where an equals sign is none that an attribute value follows. -/
inductive Unequal : State → Prop
  | tagName (tag : Tag) : Unequal (tagName tag)
  | beforeName (tag : Tag) : Unequal (beforeName tag)
  | afterValue (tag : Tag) : Unequal (afterValue tag)
  | selfClosing (tag : Tag) : Unequal (selfClosing tag)

/-- A character, with what follows it, that the scanner and the tokenizer take in different ways. -/
inductive Misleads : State → Char → Text → Prop
  /-- A comment that ends early, or with an exclamation mark. -/
  | comment {phase : CommentPhase} {data rest : Text} :
      phase = .start ∨ phase = .startDash ∨ phase = .bang → Misleads (comment phase data) '>' rest
  /-- An equals sign that is part of a name. -/
  | equals {state : State} {rest : Text} : state.Unequal → Misleads state '=' rest
  /-- An element with raw text that its start tag closes. -/
  | closed {tag : Tag} {rest : Text} : tag.closing = false → Vocabulary.isRawText tag.name = true →
      Misleads (selfClosing tag) '>' rest
  /-- A character with which the name of a tag goes on only for the tokenizer. -/
  | name {tag : Tag} {c : Char} {rest : Text} : tag.closing = false →
      Vocabulary.isRawText tag.name = true → Scan.isNameCharacter c = false → endsWord c = false →
      Misleads (tagName tag) c rest
  /-- A character after the name of an end tag that makes it another name. -/
  | endName {content : RawContent} {letters : Text} {c : Char} {rest : Text} :
      Text.lower letters = content.element → endsWord c = false →
      Misleads (rawEndName content letters) c rest
  /-- The beginning of a script inside the comment-like passage of a script. -/
  | nested {element : Text} {c : Char} {rest : Text} : endsWord c = true →
      Misleads (raw (.script element (.entering scriptWord))) c rest
  /-- What looks like a tag or a comment inside a declaration. -/
  | less {state : State} {rest : Text} : state.Deaf → Scan.begins rest = true →
      Misleads state '<' rest

theorem Misleads.append {state : State} {c : Char} {rest : Text} (h : Misleads state c rest)
    (more : Text) : Misleads state c (rest ++ more) := by
  cases h with
  | comment phase => exact .comment phase
  | equals unequal => exact .equals unequal
  | closed closing isRaw => exact .closed closing isRaw
  | name closing isRaw other apart => exact .name closing isRaw other apart
  | endName same apart => exact .endName same apart
  | nested ends => exact .nested ends
  | less deaf begins => exact .less deaf (Scan.begins_append begins more)

/-- Whether a character misleads. -/
def misleads (state : State) (c : Char) (rest : Text) : Bool :=
  match state with
  | .comment phase _ => (phase == .start || phase == .startDash || phase == .bang) && c == '>'
  | .tagName tag => c == '=' || (!tag.closing && Vocabulary.isRawText tag.name &&
      !Scan.isNameCharacter c && !endsWord c)
  | .beforeName _ => c == '='
  | .afterValue _ => c == '='
  | .selfClosing tag => c == '=' || (!tag.closing && Vocabulary.isRawText tag.name && c == '>')
  | .rawEndName content letters => Text.lower letters == content.element && !endsWord c
  | .raw (.script _ (.entering word)) => word == scriptWord && endsWord c
  | .endTagOpen => c == '<' && Scan.begins rest
  | .declaration _ => c == '<' && Scan.begins rest
  | .bogusComment _ => c == '<' && Scan.begins rest
  | .doctype _ _ => c == '<' && Scan.begins rest
  | _ => false

theorem misleads_iff {state : State} {c : Char} {rest : Text} :
    state.misleads c rest = true ↔ Misleads state c rest := by
  constructor
  · intro h
    have less : ∀ {state : State}, state.Deaf → (c == '<' && Scan.begins rest) = true →
        Misleads state c rest := by
      intro state deaf both
      obtain ⟨same, begins⟩ := Bool.and_eq_true_iff.mp both
      rw [beq_iff_eq.mp same]
      exact .less deaf begins
    have equals : ∀ {state : State}, state.Unequal → (c == '=') = true → Misleads state c rest := by
      intro state unequal same
      rw [beq_iff_eq.mp same]
      exact .equals unequal
    unfold misleads at h
    split at h
    · simp only [Bool.and_eq_true, Bool.or_eq_true, beq_iff_eq, or_assoc] at h
      obtain ⟨phase, rfl⟩ := h
      exact .comment phase
    · rcases Bool.or_eq_true_iff.mp h with same | h
      · exact equals (.tagName _) same
      · simp only [Bool.and_eq_true, Bool.not_eq_true'] at h
        obtain ⟨⟨⟨side, isRaw⟩, other⟩, apart⟩ := h
        exact .name side isRaw other apart
    · exact equals (.beforeName _) h
    · exact equals (.afterValue _) h
    · rcases Bool.or_eq_true_iff.mp h with same | h
      · exact equals (.selfClosing _) same
      · simp only [Bool.and_eq_true, Bool.not_eq_true', beq_iff_eq] at h
        obtain ⟨⟨side, isRaw⟩, rfl⟩ := h
        exact .closed side isRaw
    · simp only [Bool.and_eq_true, Bool.not_eq_true', beq_iff_eq] at h
      exact .endName h.1 h.2
    · simp only [Bool.and_eq_true, beq_iff_eq] at h
      obtain ⟨rfl, ends⟩ := h
      exact .nested ends
    · exact less .endTagOpen h
    · exact less (.declaration _) h
    · exact less (.bogusComment _) h
    · exact less (.doctype _ _) h
    · cases h
  · intro h
    cases h with
    | comment phase =>
      simp only [misleads, beq_self_eq_true, Bool.and_true, Bool.or_eq_true, beq_iff_eq, or_assoc]
      exact phase
    | equals unequal => cases unequal <;> simp [misleads]
    | closed side isRaw => simp [misleads, side, isRaw]
    | name side isRaw other apart => simp [misleads, side, isRaw, other, apart]
    | endName same apart => simp [misleads, same, apart]
    | nested ends => simp [misleads, ends]
    | less deaf begins => cases deaf <;> simp [misleads, begins]

instance (state : State) (c : Char) (rest : Text) : Decidable (Misleads state c rest) :=
  decidable_of_iff _ misleads_iff

/-- A text in which nothing misleads the scanner. -/
def Unmisled : State → Text → Prop
  | _, [] => True
  | state, c :: text => ¬ Misleads state c text ∧ Unmisled (state.step c).1 text

instance decidableUnmisled : ∀ (state : State) (text : Text), Decidable (Unmisled state text)
  | _, [] => isTrue trivial
  | state, c :: text =>
    have := decidableUnmisled (state.step c).1 text
    inferInstanceAs (Decidable (_ ∧ _))

theorem Unmisled.apart {state : State} {text : Text} (h : Unmisled state text) (before : Text)
    (c : Char) (after : Text) (split : text = before ++ c :: after) :
    ¬ Misleads (state.after before) c after := by
  induction before generalizing state text with
  | nil =>
    rw [split] at h
    exact h.1
  | cons d before ih =>
    rw [split] at h
    exact ih h.2 rfl

end State

end HtmlTemplate
