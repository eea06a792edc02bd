import HtmlTemplate.Proofs.Text
import HtmlTemplate.Value.Handler

/-!
# Handlers as expressions

A method in its short form, a name directly before its parameters, is to be made a function
expression, and every other source is one already (`Handler.expression`). Whether a source is such a
method is decided by what stands before its first parenthesis, and not all of it is looked at: a
source is taken for the wrong thing exactly if that is something other than a name which begins like
one and has no white space, or a name which goes on after the word of a function expression
(`Handler.Misjudged`). All other sources are normalised as they are to be, and nothing is ever
normalised twice (`Handler.normalize_eq_expression_iff`).
-/

namespace HtmlTemplate

namespace Handler

variable {source name head parameters : Text}

/-! ## What the forms are -/

/-- The characters that names of methods begin with. -/
def isNameStart (c : Char) : Bool := Text.isSmall c || c == '$' || c == '_'

/-- The characters that names go on with. -/
def isNamePart (c : Char) : Bool := Text.isAlphanumeric c || c == '$' || c == '_'

/-- Whether a text is a name. -/
def isName : Text → Bool
  | [] => false
  | c :: rest => isNameStart c && rest.all isNamePart

/-- A method in its short form: a name, other than the word of a function expression, directly
before its parameters. -/
def IsMethod (source : Text) : Prop :=
  ∃ name parameters, source = name ++ '(' :: parameters ∧ isName name = true ∧ name ≠ functionWord

/-- What is looked at in a text before a parenthesis: it begins like a name, has no white space, and
does not begin with the word. -/
structure LooksNamed (head : Text) : Prop where
  starts : ∃ c ∈ head.head?, isNameStart c = true
  solid : ∀ c ∈ head, Text.isUnicodeBlank c = false
  other : ¬ functionWord <+: head

/-- The sources that are taken for the wrong thing. -/
inductive Misjudged : Text → Prop
  /-- What stands before the first parenthesis looks like a name and is none. -/
  | lookalike {head parameters : Text} : '(' ∉ head → LooksNamed head → isName head = false →
      Misjudged (head ++ '(' :: parameters)
  /-- A name that begins with the word and goes on. -/
  | extended {more parameters : Text} : isName (functionWord ++ more) = true → more ≠ [] →
      Misjudged (functionWord ++ more ++ '(' :: parameters)

/-! ## Before the first parenthesis -/

theorem isNamePart_of_isNameStart {c : Char} (h : isNameStart c = true) : isNamePart c = true := by
  simp only [isNameStart, isNamePart, Text.isAlphanumeric, Text.isLetter, Bool.or_eq_true] at h ⊢
  rcases h with (small | dollar) | underscore
  · exact .inl (.inl (.inl (.inr small)))
  · exact .inl (.inr dollar)
  · exact .inr underscore

theorem isUnicodeBlank_of_isNamePart {c : Char} (h : isNamePart c = true) :
    Text.isUnicodeBlank c = false := by
  have range : (48 ≤ c.toNat ∧ c.toNat ≤ 57) ∨ (65 ≤ c.toNat ∧ c.toNat ≤ 90) ∨
      (97 ≤ c.toNat ∧ c.toNat ≤ 122) ∨ c.toNat = 36 ∨ c.toNat = 95 := by
    simp only [isNamePart, Text.isAlphanumeric, Text.isLetter, Text.isCapital, Text.isSmall,
      Text.isDigit, Bool.or_eq_true, Bool.and_eq_true, decide_eq_true_iff, beq_iff_eq] at h
    rcases h with (((capital | small) | digit) | rfl) | rfl
    · exact .inr (.inl capital)
    · exact .inr (.inr (.inl small))
    · exact .inl digit
    · exact .inr (.inr (.inr (.inl rfl)))
    · exact .inr (.inr (.inr (.inr rfl)))
  simp only [Text.isUnicodeBlank, Bool.or_eq_false_iff, Bool.and_eq_false_iff,
    decide_eq_false_iff_not, beq_eq_false_iff_ne]
  omega

theorem exists_of_isName (h : isName name = true) :
    (∃ c ∈ name.head?, isNameStart c = true) ∧ ∀ c ∈ name, isNamePart c = true := by
  cases name with
  | nil => cases h
  | cons c rest =>
    rw [isName, Bool.and_eq_true, List.all_eq_true] at h
    exact ⟨⟨c, rfl, h.1⟩, List.forall_mem_cons.mpr ⟨isNamePart_of_isNameStart h.1, h.2⟩⟩

theorem not_mem_of_isName (h : isName name = true) : '(' ∉ name := by
  intro member
  have part := (exists_of_isName h).2 '(' member
  exact absurd part (by decide)

/-- A name looks like one unless it begins with the word. -/
theorem looksNamed_iff (h : isName name = true) : LooksNamed name ↔ ¬ functionWord <+: name := by
  obtain ⟨starts, parts⟩ := exists_of_isName h
  exact ⟨LooksNamed.other, fun other =>
    ⟨starts, fun c member => isUnicodeBlank_of_isNamePart (parts c member), other⟩⟩

section Head

variable (cut : Text.cut? ['('] source = some (head, parameters))
include cut

theorem eq_head {front rest : Text} (whole : source = front ++ '(' :: rest) (absent : '(' ∉ front) :
    front = head := by
  have found : Text.cut? ['('] source = some (front, rest) :=
    Text.cut?_singleton.mpr ⟨whole, absent⟩
  rw [cut] at found
  exact (Prod.mk.inj (Option.some.inj found)).1.symm

theorem isShorthand_iff : isShorthand source = true ↔ LooksNamed head := by
  cases head with
  | nil =>
    rw [isShorthand, cut]
    constructor
    · intro h
      cases h
    · rintro ⟨⟨c, found, _⟩, _, _⟩
      cases found
  | cons c head =>
    rw [isShorthand, cut]
    simp only [Bool.and_eq_true, Bool.not_eq_true', ← Bool.not_eq_true, Text.startsWith_iff]
    constructor
    · rintro ⟨⟨starts, solid⟩, other⟩
      exact ⟨⟨c, rfl, starts⟩, by simpa using solid, other⟩
    · rintro ⟨⟨d, found, starts⟩, solid, other⟩
      obtain rfl : c = d := by simpa using found
      exact ⟨⟨starts, by simpa using solid⟩, other⟩

theorem isMethod_iff : IsMethod source ↔ isName head = true ∧ head ≠ functionWord := by
  constructor
  · rintro ⟨name, rest, whole, named, other⟩
    obtain rfl := eq_head cut whole (not_mem_of_isName named)
    exact ⟨named, other⟩
  · rintro ⟨named, other⟩
    exact ⟨head, parameters, (Text.cut?_singleton.mp cut).1, named, other⟩

theorem misjudged_iff : Misjudged source ↔
    (LooksNamed head ∧ isName head = false) ∨
      (isName head = true ∧ functionWord <+: head ∧ head ≠ functionWord) := by
  constructor
  · intro h
    cases h with
    | lookalike absent looks none =>
      obtain rfl := eq_head cut rfl absent
      exact .inl ⟨looks, none⟩
    | @extended more _ named some =>
      obtain rfl := eq_head cut rfl (not_mem_of_isName named)
      exact .inr ⟨named, ⟨more, rfl⟩, by simpa using some⟩
  · obtain ⟨whole, absent⟩ := Text.cut?_singleton.mp cut
    rw [whole]
    rintro (⟨looks, none⟩ | ⟨named, ⟨more, rfl⟩, other⟩)
    · exact .lookalike absent looks none
    · exact .extended named (by simpa using other)

/-- Of what looks like a name and what is one, the misjudged sources have only one. -/
theorem isShorthand_iff_isMethod_iff :
    (isShorthand source = true ↔ IsMethod source) ↔ ¬ Misjudged source := by
  rw [isShorthand_iff cut, isMethod_iff cut, misjudged_iff cut]
  by_cases named : isName head = true
  · rw [looksNamed_iff named]
    by_cases word : head = functionWord
    · simp [word]
    · simp [named, word]
  · have none : isName head = false := by simpa using named
    simp [none]

end Head

/-! ## Main result -/

/-- Without a parenthesis a source is neither a method nor misjudged. -/
theorem not_isMethod_of_none (none : Text.cut? ['('] source = none) :
    ¬ IsMethod source ∧ ¬ Misjudged source := by
  have outside : ∀ {front rest : Text}, source = front ++ '(' :: rest → ¬ '(' ∉ front := by
    intro front rest whole absent
    have found : Text.cut? ['('] source = some (front, rest) :=
      Text.cut?_singleton.mpr ⟨whole, absent⟩
    rw [none] at found
    cases found
  constructor
  · rintro ⟨name, rest, whole, named, _⟩
    exact outside whole (not_mem_of_isName named)
  · intro h
    cases h with
    | lookalike absent _ _ => exact outside rfl absent
    | extended named _ => exact outside rfl (not_mem_of_isName named)

instance (source : Text) : Decidable (IsMethod source) :=
  decidable_of_iff
    (((Text.cut? ['('] source).any fun parts => isName parts.1 && parts.1 != functionWord) =
      true) <| by
    cases cut : Text.cut? ['('] source with
    | none => simp [not_isMethod_of_none cut]
    | some parts => simp [isMethod_iff cut]

/-- A source as it is to be: a method in its short form with the word in front, any other as it
is. -/
def expression (source : Text) : Text :=
  if IsMethod source then functionWord ++ ' ' :: source else source

theorem isShorthand_functionWord (rest : Text) :
    isShorthand (functionWord ++ ' ' :: rest) = false := by
  cases cut : Text.cut? ['('] (functionWord ++ ' ' :: rest) with
  | none => rw [isShorthand, cut]
  | some parts =>
    obtain ⟨head, parameters⟩ := parts
    rw [← Bool.not_eq_true, isShorthand_iff cut]
    intro looks
    have whole := (Text.cut?_singleton.mp cut).1
    rcases List.append_eq_append_iff.mp whole with ⟨more, longer, _⟩ | ⟨more, shorter, next⟩
    · exact looks.other ⟨more, longer.symm⟩
    · -- then the parenthesis is in the word, or the space is one
      cases more with
      | nil => exact absurd (List.cons.inj next).1 (by decide)
      | cons c more =>
        have inside : '(' ∈ functionWord := by
          rw [shorter, ← (List.cons.inj next).1]
          simp
        exact absurd inside (by decide)

/-- What was normalised is not normalised again. -/
theorem normalize_normalize (source : Text) : normalize (normalize source) = normalize source := by
  cases shorthand : isShorthand source with
  | false => simp [normalize, shorthand]
  | true => simp [normalize, shorthand, isShorthand_functionWord]

/-- A source is normalised as it is to be, methods in their short form with the word in front and
all others as they are, exactly if it is not misjudged; and normalising a second time changes
nothing. -/
theorem normalize_eq_expression_iff (source : Text) :
    (normalize source = expression source ↔ ¬ Misjudged source) ∧
      normalize (normalize source) = normalize source := by
  refine ⟨?_, normalize_normalize source⟩
  have longer : functionWord ++ ' ' :: source ≠ source := fun same => by
    have size := congrArg List.length same
    rw [List.length_append, List.length_cons] at size
    omega
  have agree : normalize source = expression source ↔
      (isShorthand source = true ↔ IsMethod source) := by
    by_cases shorthand : isShorthand source = true <;> by_cases method : IsMethod source <;>
      simp [normalize, expression, shorthand, method, longer, longer.symm]
  rw [agree]
  cases cut : Text.cut? ['('] source with
  | none =>
    have shorthand : isShorthand source = false := by rw [isShorthand, cut]
    simp [shorthand, not_isMethod_of_none cut]
  | some parts => exact isShorthand_iff_isMethod_iff cut

/-- An arrow function without spaces is misjudged, and so is a method whose name begins with the
word. -/
example : normalize "e=>go(e)".toList = "function e=>go(e)".toList ∧
    normalize "functional(e) {}".toList = "functional(e) {}".toList ∧
    expression "e=>go(e)".toList = "e=>go(e)".toList ∧
    expression "functional(e) {}".toList = "function functional(e) {}".toList := by decide

end Handler

end HtmlTemplate
