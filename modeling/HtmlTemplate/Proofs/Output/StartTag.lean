import HtmlTemplate.Proofs.Markup.Named
import HtmlTemplate.Proofs.Output.Escaped

/-!
# Reading a start tag back

A template prints an attribute as its bare name or as its name with an escaped value between
quotation marks. `Token.read_startTag` says that a start tag that is printed in this way is read
back as that tag with these attributes, whatever the values are. There is one condition on the names
(`Printed.Apart`): after a bare name the tokenizer takes an equals sign for the one before its
value, so a name that begins with one cannot stand there.
-/

namespace HtmlTemplate

/-- An attribute as it is printed in a start tag. -/
inductive Printed where
  /-- Only the name. -/
  | bare (name : Text)
  | valued (name value : Text)
  deriving DecidableEq

namespace Printed

def name : Printed → Text
  | bare name => name
  | valued name _ => name

def isBare : Printed → Bool
  | bare _ => true
  | valued .. => false

/-- The markup of an attribute, after the blank before it. -/
def text : Printed → Text
  | bare name => ' ' :: name
  | valued name value => Draft.attributeOpening name ++ Text.escape value ++ ['"']

/-- The attribute that is read. -/
def read : Printed → Attribute
  | bare name => ⟨name, []⟩
  | valued name value => ⟨name, (normalizeNewlines value).map State.kept⟩

/-- The tokenizer does not take the second attribute for the value of the first. -/
def Apart : Printed → Printed → Prop
  | bare _, next => next.name.head? ≠ some '='
  | valued .., _ => True

instance (item next : Printed) : Decidable (item.Apart next) := by
  cases item <;> unfold Apart <;> infer_instance

/-- With line feeds for all line ends. -/
def lines : Printed → Printed
  | bare name => bare name
  | valued name value => valued name (normalizeNewlines value)

end Printed

/-! ## Collecting attributes -/

/-- The attributes of a tag after those of a list, in their order. -/
def Attribute.collect (l known : List Attribute) : List Attribute :=
  l.foldl (fun known a => a.insert known) known

namespace Attribute

theorem collect_perm {l known : List Attribute} (sorted : Sorted known)
    (distinct : (known ++ l).Pairwise fun a b => a.name ≠ b.name) :
    Sorted (collect l known) ∧ (collect l known).Perm (known ++ l) := by
  induction l generalizing known with
  | nil => exact ⟨sorted, by rw [List.append_nil]; exact .refl _⟩
  | cons a l ih =>
    have new : ∀ b ∈ known, b.name ≠ a.name := fun b member =>
      (List.pairwise_append.mp distinct).2.2 b member a List.mem_cons_self
    have perm : (a.insert known ++ l).Perm (known ++ a :: l) :=
      ((insert_perm new).append_right l).trans List.perm_middle.symm
    have later : (a.insert known ++ l).Pairwise fun a b => a.name ≠ b.name :=
      distinct.perm perm.symm Ne.symm
    obtain ⟨ordered, all⟩ := ih (sorted_insert a sorted) later
    exact ⟨ordered, all.trans perm⟩

/-- Attributes that are sorted already are collected as they are, in whatever order they come. -/
theorem collect_eq {l attributes : List Attribute} (sorted : Sorted attributes)
    (perm : l.Perm attributes) : collect l [] = attributes := by
  have names : attributes.Pairwise fun a b => a.name ≠ b.name :=
    List.Pairwise.imp (fun less => ne_of_lt less) sorted
  have distinct : l.Pairwise fun a b => a.name ≠ b.name := names.perm perm.symm Ne.symm
  obtain ⟨ordered, all⟩ := @collect_perm l [] List.Pairwise.nil distinct
  have same : ∀ a b : Attribute, a ∈ collect l [] → b ∈ attributes → a.name < b.name →
      b.name < a.name → a = b := fun _ _ _ _ less greater => absurd less (not_lt_of_gt greater)
  exact List.Perm.eq_of_pairwise same ordered sorted (all.trans perm)

end Attribute

/-! ## Reading printed attributes -/

namespace State

/-- Right after what was printed last in a tag: its name, the value of an attribute, or the bare
name of one. -/
inductive Printing (tag : Tag) : Bool → State → Prop
  | name : Printing tag false (tagName tag)
  | value : Printing tag false (afterValue tag)
  | bare {before : Tag} {name : Text} :
    tag = before.withAttribute name [] → Printing tag true (attributeName before name)

variable {tag : Tag} {bare : Bool} {state : State} {name : Text}

theorem run_tagName_append {more : Text} (known : ∀ c ∈ more, NameCharacter c) (rest : Text) :
    (tagName tag).run (more ++ rest) =
      (tagName { tag with name := tag.name ++ more }).run rest := by
  induction more generalizing tag with
  | nil => rw [List.append_nil, List.nil_append]
  | cons c more ih =>
    have first := known c List.mem_cons_self
    have step : (tagName tag).step c = (tagName { tag with name := tag.name ++ [c] }, []) := by
      simp [State.step, stepTagName, first.solid, first.notSlash, first.notGreater, first.same]
    rw [List.cons_append, run, step]
    simp only [List.nil_append]
    rw [ih fun d member => known d (List.mem_cons_of_mem c member)]
    simp

theorem run_attributeName_append {more : Text} (known : ∀ c ∈ more, NameCharacter c ∧ c ≠ '=')
    (rest : Text) :
    (attributeName tag name).run (more ++ rest) = (attributeName tag (name ++ more)).run rest := by
  induction more generalizing name with
  | nil => rw [List.append_nil, List.nil_append]
  | cons c more ih =>
    obtain ⟨first, notEquals⟩ := known c List.mem_cons_self
    have step : (attributeName tag name).step c = (attributeName tag (name ++ [c]), []) := by
      simp [State.step, stepAttributeName, first.solid, first.notSlash, first.notGreater,
        notEquals, first.same]
    rw [List.cons_append, run, step]
    simp only [List.nil_append]
    rw [ih fun d member => known d (List.mem_cons_of_mem c member)]
    simp

/-- A blank and a name begin another attribute. -/
theorem run_printing_name (h : Printing tag bare state) (known : AttributeName name)
    (apart : bare = true → name.head? ≠ some '=') (rest : Text) :
    state.run (' ' :: name ++ rest) = (attributeName tag name).run rest := by
  obtain ⟨⟨c, more, rfl, others⟩, characters⟩ := known
  have first := characters c List.mem_cons_self
  have begins : state.run (' ' :: c :: (more ++ rest)) =
      (attributeName tag [c]).run (more ++ rest) := by
    cases h with
    | name =>
      simp [run, State.step, stepTagName, stepBeforeName, show Text.isBlank ' ' = true from rfl,
        first.solid, first.notSlash, first.notGreater, first.same]
    | value =>
      simp [run, State.step, stepAfterValue, stepBeforeName, show Text.isBlank ' ' = true from rfl,
        first.solid, first.notSlash, first.notGreater, first.same]
    | bare same =>
      have notEquals : c ≠ '=' := fun equals => apart rfl (by rw [equals]; rfl)
      subst same
      simp [run, State.step, stepAttributeName, stepAfterName,
        show Text.isBlank ' ' = true from rfl, first.solid, first.notSlash, first.notGreater,
        first.same, notEquals]
  rw [List.cons_append, List.cons_append, begins, run_attributeName_append]
  · rfl
  · intro d member
    exact ⟨characters d (List.mem_cons_of_mem c member), others d member⟩

/-- The tag with a printed attribute. -/
theorem run_printing_text (h : Printing tag bare state) {item : Printed}
    (known : AttributeName item.name) (apart : bare = true → item.name.head? ≠ some '=')
    (rest : Text) :
    ∃ next, state.run (item.lines.text ++ rest) = next.run rest ∧
      Printing { tag with attributes := item.read.insert tag.attributes }
        item.isBare next := by
  cases item with
  | bare name => exact ⟨_, run_printing_name h known apart rest, .bare rfl⟩
  | valued name value =>
    refine ⟨afterValue (tag.withAttribute name ((normalizeNewlines value).map kept)), ?_, .value⟩
    have opens : ∀ rest, (attributeName tag name).run ('=' :: '"' :: rest) =
        (State.value tag name .double []).run rest := fun rest => rfl
    have closes : ∀ text rest, (State.value tag name .double text).run ('"' :: rest) =
        (afterValue (tag.withAttribute name text)).run rest := fun text rest => rfl
    have begins := @run_printing_name _ _ _ name h known apart
      ('=' :: '"' :: (Text.escape (normalizeNewlines value) ++ '"' :: rest))
    rw [opens, run_value_escape tag name (by decide), closes, List.nil_append] at begins
    simpa only [Printed.lines, Printed.text, Draft.attributeOpening, List.cons_append,
      List.append_assoc, List.nil_append] using begins

/-- The end of a start tag. -/
theorem run_printing_end (h : Printing tag bare state) (rest : Text) :
    state.run ('>' :: rest) = tag.token false :: (afterTag tag false).run rest := by
  cases h with
  | name => rfl
  | value => rfl
  | bare same =>
    subst same
    rfl

/-- All attributes of a start tag, one after the other. -/
theorem run_printing (h : Printing tag bare state) {items : List Printed}
    (known : ∀ item ∈ items, AttributeName item.name)
    (first : ∀ item, items.head? = some item → bare = true → item.name.head? ≠ some '=')
    (apart : items.IsChain Printed.Apart) (rest : Text) :
    state.run (items.flatMap (fun item => item.lines.text) ++ '>' :: rest) =
      { tag with attributes := Attribute.collect (items.map Printed.read) tag.attributes }.token
          false ::
        (afterTag tag false).run rest := by
  induction items generalizing tag bare state with
  | nil => exact run_printing_end h rest
  | cons item items ih =>
    obtain ⟨next, read, printing⟩ := run_printing_text h (known item List.mem_cons_self)
      (first item rfl) (items.flatMap (fun item => item.lines.text) ++ '>' :: rest)
    have onward : ∀ other, items.head? = some other → item.isBare = true →
        other.name.head? ≠ some '=' := by
      intro other head bare
      cases items with
      | nil => cases head
      | cons second items =>
        obtain ⟨between, _⟩ := List.isChain_cons_cons.mp apart
        rw [← Option.some.inj head]
        cases item with
        | bare name => exact between
        | valued name value => cases bare
    have later := ih printing (fun other member => known other (List.mem_cons_of_mem item member))
      onward apart.of_cons
    rw [List.flatMap_cons, List.append_assoc, read, later]
    rfl

end State

/-! ## A start tag -/

namespace Printed

/-- The markup of a start tag. -/
def startTag (name : Text) (items : List Printed) : Text :=
  '<' :: name ++ items.flatMap text ++ ['>']

theorem normalizeNewlines_text {item : Printed} (known : AttributeName item.name) (rest : Text) :
    normalizeNewlines (item.text ++ rest) = item.lines.text ++ normalizeNewlines rest := by
  have inert : ∀ c ∈ item.name, c ≠ '\r' := by
    rintro c member rfl
    exact absurd (known.characters _ member).solid (by decide)
  cases item with
  | bare name =>
    have all : ∀ c ∈ ' ' :: name, c ≠ '\r' := by
      intro c member
      rcases List.mem_cons.mp member with rfl | member
      · decide
      · exact inert c member
    exact normalizeNewlines_inert all rest
  | valued name value =>
    have all : ∀ c ∈ Draft.attributeOpening name, c ≠ '\r' := by
      intro c member
      rcases List.mem_append.mp member with member | member
      · rcases List.mem_cons.mp member with rfl | member
        · decide
        · exact inert c member
      · rcases List.mem_pair.mp member with rfl | rfl <;> decide
    have closed := normalizeNewlines_around (c := '"') (by decide) (by decide)
      (Text.escape value) rest
    rw [Text.normalizeNewlines_escape] at closed
    simp only [text, lines, List.append_assoc, List.singleton_append]
    rw [normalizeNewlines_inert all, closed]

theorem normalizeNewlines_texts {items : List Printed}
    (known : ∀ item ∈ items, AttributeName item.name) (rest : Text) :
    normalizeNewlines (items.flatMap text ++ rest) =
      items.flatMap (fun item => item.lines.text) ++ normalizeNewlines rest := by
  induction items with
  | nil => rfl
  | cons item items ih =>
    rw [List.flatMap_cons, List.append_assoc,
      normalizeNewlines_text (known item List.mem_cons_self),
      ih fun other member => known other (List.mem_cons_of_mem item member), List.flatMap_cons,
      List.append_assoc]

end Printed

/-- The letter that a name begins with is a small one. -/
theorem NameCharacter.lowerChar_eq {c : Char} (h : NameCharacter c)
    (letter : Text.isLetter c = true) : Text.lowerChar c = c := by
  have same := h.same
  unfold State.keptInName at same
  split at same
  · rename_i null
    rw [null] at letter
    exact absurd letter (by decide)
  · exact same

theorem State.run_tagOpen {name : Text} (known : TagName name) (rest : Text) :
    State.data.run ('<' :: name ++ rest) = (State.tagName ⟨false, name, []⟩).run rest := by
  obtain ⟨⟨c, more, rfl, letter⟩, characters⟩ := known
  have first := characters c List.mem_cons_self
  have small := first.lowerChar_eq letter
  have step : State.tagOpen.step c = (.tagName ⟨false, [c], []⟩, []) := by
    have notBang : c ≠ '!' := by
      rintro rfl
      exact absurd letter (by decide)
    simp [State.step, stepTagOpen, notBang, first.notSlash, letter, small]
  have begins : State.data.run ('<' :: c :: (more ++ rest)) =
      (State.tagName ⟨false, [c], []⟩).run (more ++ rest) := by
    show State.tagOpen.run (c :: (more ++ rest)) = _
    rw [run, step]
    rfl
  rw [List.cons_append, List.cons_append, begins,
    run_tagName_append fun d member => characters d (List.mem_cons_of_mem c member)]
  rfl

/-- The lines of a start tag are those of its values. -/
theorem Printed.normalizeNewlines_startTag {name : Text} (known : TagName name)
    {items : List Printed} (names : ∀ item ∈ items, AttributeName item.name) (rest : Text) :
    normalizeNewlines (Printed.startTag name items ++ rest) =
      '<' :: name ++ (items.flatMap (fun item => item.lines.text) ++
        '>' :: normalizeNewlines rest) := by
  have inert : ∀ c ∈ '<' :: name, c ≠ '\r' := by
    intro c member
    rcases List.mem_cons.mp member with rfl | member
    · decide
    · rintro rfl
      exact absurd (known.characters _ member).solid (by decide)
  rw [Printed.startTag, List.append_assoc, List.append_assoc, normalizeNewlines_inert inert,
    Printed.normalizeNewlines_texts names, List.singleton_append,
    normalizeNewlines_cons (by decide)]

/-- A start tag is read back with all its attributes, before whatever follows it. -/
theorem State.run_startTag {name : Text} (known : TagName name) {items : List Printed}
    {attributes : List Attribute} (names : ∀ item ∈ items, AttributeName item.name)
    (apart : items.IsChain Printed.Apart) (sorted : Attribute.Sorted attributes)
    (perm : (items.map Printed.read).Perm attributes) (rest : Text) :
    State.data.run (normalizeNewlines (Printed.startTag name items ++ rest)) =
      .startTag name attributes false :: (State.content name).run (normalizeNewlines rest) := by
  rw [Printed.normalizeNewlines_startTag known names, State.run_tagOpen known,
    State.run_printing .name names (fun _ _ bare => by cases bare) apart,
    Attribute.collect_eq sorted perm]
  rfl

/-- A start tag is read back with all its attributes and nothing else. -/
theorem Token.read_startTag {name : Text} (known : TagName name) {items : List Printed}
    {attributes : List Attribute} (names : ∀ item ∈ items, AttributeName item.name)
    (apart : items.IsChain Printed.Apart) (sorted : Attribute.Sorted attributes)
    (perm : (items.map Printed.read).Perm attributes) :
    Token.read (Printed.startTag name items) = [.startTag name attributes false] := by
  have quiet : (State.content name).run [] = [] := by
    unfold State.content
    split
    · rfl
    · split <;> rfl
  have whole := State.run_startTag known names apart sorted perm []
  rw [List.append_nil, show normalizeNewlines [] = [] from rfl, quiet] at whole
  exact whole

end HtmlTemplate
