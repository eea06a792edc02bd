import HtmlTemplate.Proofs.Template.Beside
import HtmlTemplate.Proofs.Template.Fits
import Mathlib.Data.List.Nodup

/-!
# Words of letters

What a word does where the tokenizer comes to it. In text it is told of as it is, but for what of a
reference or an end tag it goes on with; a marker there is told of as text or as a comment, and
after both the readings are side by side (`InRaw.beside_word`, `Ordinary.beside_word`). In a value
it is kept as it is (`reads_literal`), and where it is the whole value, the value ends right after
it (`ends_of_whole`).
-/

namespace HtmlTemplate

/-- Some letters, and nothing else. -/
def Text.IsWord (word : Text) : Prop := word ≠ [] ∧ ∀ c ∈ word, isLetter c = true

instance (word : Text) : Decidable word.IsWord :=
  decidable_of_iff (word ≠ [] ∧ word.all Text.isLetter = true)
    (and_congr_right' List.all_eq_true)

theorem Text.IsWord.head {word : Text} (h : word.IsWord) :
    ∃ c rest, word = c :: rest ∧ isLetter c = true ∧ ∀ d ∈ rest, isLetter d = true := by
  obtain ⟨some, letters⟩ := h
  cases word with
  | nil => exact absurd rfl some
  | cons c rest =>
    obtain ⟨first, others⟩ := List.forall_mem_cons.mp letters
    exact ⟨c, rest, rfl, first, others⟩

/-- A letter ends no attribute value. -/
theorem Quote.ends_of_isLetter {c : Char} (letter : Text.isLetter c = true) (quote : Quote) :
    quote.ends c = false := by
  obtain ⟨_, greater, _, _, _, _, double, single, blank⟩ := Text.facts_of_isLetter letter
  cases quote <;> simp [ends, greater, double, single, blank]

/-- No two attributes of a tag have the same name. -/
theorem Attribute.Sorted.eq_of_name {attributes : List Attribute} (h : Sorted attributes)
    {a b : Attribute} (first : a ∈ attributes) (second : b ∈ attributes) (same : a.name = b.name) :
    a = b := by
  have names : (attributes.map Attribute.name).Nodup := List.pairwise_map.mpr (h.imp ne_of_lt)
  exact List.inj_on_of_nodup_map names first second same

namespace State

variable {state next : State} {c : Char} {u rest : Text}

/-! ## Ordinary text -/

/-- Where a letter begins the name of a tag, no text goes on. -/
theorem run_open_ne_character (h : state = tagOpen ∨ state = endTagOpen)
    (letter : Text.isLetter c = true) (text : Text) (d : Char) (tokens : List Token) :
    state.run (c :: text) ≠ .character d :: tokens := by
  have opens : ∃ tag, state.step c = (tagName tag, []) := by
    rcases h with rfl | rfl
    · obtain ⟨_, _, slash, _⟩ := Text.facts_of_isLetter letter
      have mark : c ≠ '!' := by
        rintro rfl
        cases letter
      refine ⟨⟨false, [Text.lowerChar c], []⟩, ?_⟩
      show stepTagOpen c = _
      simp only [stepTagOpen, mark, slash, letter, if_true, if_false]
    · refine ⟨⟨true, [Text.lowerChar c], []⟩, ?_⟩
      show stepEndTagOpen c = _
      rw [stepEndTagOpen, if_pos letter]
  obtain ⟨tag, step⟩ := opens
  rw [run, step]
  exact run_inMark_ne_character (.tag rfl) text d tokens

/-- In ordinary text, where no mark has begun. -/
inductive Ordinary : State → Prop
  | text : Ordinary data
  | within (ref : Reference) : Ordinary (reference .data ref)

theorem Ordinary.beside (h : Ordinary state) (rest : Text) : Beside rest state data := by
  cases h with
  | text => exact .same _ _
  | within ref => exact .reference ref

theorem Ordinary.step_of_letter (h : Ordinary state) (letter : Text.isLetter c = true) :
    Ordinary (state.step c).1 := by
  obtain ⟨less, _, _, _, ampersand, _⟩ := Text.facts_of_isLetter letter
  have stays : (stepData c).1 = data := by simp [stepData, less, ampersand]
  cases h with
  | text =>
    show Ordinary (stepData c).1
    rw [stays]
    exact .text
  | within ref =>
    show Ordinary (stepReference .data ref c).1
    unfold stepReference
    cases ref.step (ReferenceTarget.inAttribute .data) c with
    | more ref' => exact .within ref'
    | done shown => exact .text
    | before shown =>
      show Ordinary (stepData c).1
      rw [stays]
      exact .text

/-- After a word in ordinary text at most a reference goes on. -/
theorem Ordinary.beside_word (h : Ordinary state) (letters : ∀ c ∈ u, Text.isLetter c = true)
    (rest : Text) : Beside rest (state.after u) data := by
  induction u generalizing state with
  | nil => exact h.beside rest
  | cons c u ih =>
    obtain ⟨first, others⟩ := List.forall_mem_cons.mp letters
    exact ih (h.step_of_letter first) others

/-- A less-than sign ends a reference, and may begin a mark. -/
theorem Ordinary.takesContent (h : Ordinary state) (s : Sentinel) (slot : Nat) :
    TakesContent s slot state data := by
  have less : ∃ before, state.step '<' = (tagOpen, Token.characters before) := by
    cases h with
    | text => exact ⟨[], rfl⟩
    | within ref =>
      obtain ⟨shown, ends⟩ := ref.step_of_mark (.inl rfl) false
      refine ⟨shown, ?_⟩
      show stepReference .data ref '<' = _
      rw [stepReference, show ReferenceTarget.inAttribute .data = false from rfl, ends]
      show (tagOpen, Token.characters shown ++ []) = _
      rw [List.append_nil]
  obtain ⟨before, step⟩ := less
  exact .comment (reads_commentMarker step s slot)

/-! ## Content without tags -/

open RawContent

/-- In content without tags, where no end tag has been read; with what the content is outside any
comment-like passage. -/
inductive InRaw : State → RawContent → Prop
  | content {content : RawContent} : content.Open → InRaw (raw content) content.calm
  | reference (element : Text) (ref : Reference) :
      InRaw (.reference (.raw element) ref) (.plain element)
  | less {content : RawContent} : content.Held → InRaw (rawLess content) content.calm
  | endOpen {content : RawContent} : content.Held → InRaw (rawEndOpen content) content.calm
  | endName {content : RawContent} (letters : Text) : content.Held →
      InRaw (rawEndName content letters) content.calm

theorem calm_isOpen (content : RawContent) : content.calm.Open := by
  cases content <;> trivial

theorem calm_element (content : RawContent) : content.calm.element = content.element := by
  cases content <;> rfl

theorem InRaw.isOpen {content : RawContent} (h : InRaw state content) : content.Open := by
  cases h with
  | reference element ref => trivial
  | _ => exact calm_isOpen _

theorem beside_calm {content : RawContent} (isOpen : content.Open) (rest : Text) :
    Beside rest (raw content) (raw content.calm) := by
  cases content with
  | plain element => exact .same _ _
  | script element phase => exact .deeper (.plain isOpen)

theorem Drops.of_held {content : RawContent} (h : content.Held) : Drops content content.calm := by
  cases h with
  | plain element => exact .same element
  | outside element => exact .outside element
  | inside element dashes => exact .inside element dashes

theorem stepRaw_of_letter {content : RawContent} (isOpen : content.Open)
    (letter : Text.isLetter c = true) : ∃ content', (stepRaw content c).1 = raw content' ∧
      content'.Open ∧ content'.calm = content.calm := by
  obtain ⟨less, greater, slash, _, ampersand, dash, _, _, blank⟩ := Text.facts_of_isLetter letter
  have word : endsWord c = false := by simp [endsWord, greater, slash, blank]
  cases content with
  | plain element => exact ⟨.plain element, by simp [stepRaw, less, ampersand], trivial, rfl⟩
  | script element phase =>
    cases phase with
    | plain =>
      exact ⟨.script element .plain, by simp [stepRaw, stepScript, stepScriptPlain, less],
        trivial, rfl⟩
    | opening dashes =>
      exact ⟨.script element .plain, by simp [stepRaw, stepScript, stepScriptPlain, less, dash],
        trivial, rfl⟩
    | escaped dashes =>
      exact ⟨.script element (.escaped 0),
        by simp [stepRaw, stepScript, stepScriptEscaped, less, dash, greater], trivial, rfl⟩
    | entering seen =>
      exact ⟨.script element (.entering (seen ++ [Text.lowerChar c])),
        by simp [stepRaw, stepScript, word, letter], trivial, rfl⟩
    | nested dashes => exact isOpen.elim
    | nestedLess => exact isOpen.elim
    | leaving seen => exact isOpen.elim

theorem beside_word_raw {content : RawContent} (isOpen : content.Open)
    (letters : ∀ c ∈ u, Text.isLetter c = true) (rest : Text) :
    Beside rest ((raw content).after u) (raw content.calm) := by
  induction u generalizing content with
  | nil => exact beside_calm isOpen rest
  | cons c u ih =>
    obtain ⟨first, others⟩ := List.forall_mem_cons.mp letters
    obtain ⟨content', step, isOpen', same⟩ := stepRaw_of_letter isOpen first
    show Beside rest ((stepRaw content c).1.after u) _
    rw [step, ← same]
    exact ih isOpen' others

theorem beside_word_rawReference (element : Text) (ref : Reference)
    (letters : ∀ c ∈ u, Text.isLetter c = true) (rest : Text) :
    Beside rest ((State.reference (.raw element) ref).after u) (raw (.plain element)) := by
  induction u generalizing ref with
  | nil => exact .rawReference element ref
  | cons c u ih =>
    obtain ⟨first, others⟩ := List.forall_mem_cons.mp letters
    have content := beside_word_raw (show (RawContent.plain element).Open from trivial) others rest
    show Beside rest ((stepReference (.raw element) ref c).1.after u) _
    unfold stepReference
    cases ref.step (ReferenceTarget.inAttribute (.raw element)) c with
    | more ref' => exact ih ref' others
    | done shown => exact content
    | before shown =>
      exact beside_word_raw (show (RawContent.plain element).Open from trivial) letters rest

theorem stepRawLess_of_letter {content : RawContent} (held : content.Held)
    (letter : Text.isLetter c = true) : ∃ content', (stepRawLess content c).1 = raw content' ∧
      content'.Open ∧ content'.calm = content.calm := by
  obtain ⟨_, _, slash, _⟩ := Text.facts_of_isLetter letter
  have mark : c ≠ '!' := by
    rintro rfl
    cases letter
  unfold stepRawLess
  rw [if_neg slash]
  cases held with
  | plain element =>
    exact stepRaw_of_letter (show (RawContent.plain element).Open from trivial) letter
  | outside element =>
    simp only [mark, if_false]
    exact stepRaw_of_letter (show (RawContent.script element .plain).Open from trivial) letter
  | inside element dashes =>
    simp only [letter, if_true]
    exact stepRaw_of_letter
      (show (RawContent.script element (.entering [])).Open from trivial) letter

/-- The letters after `</` go on. -/
theorem reads_endName (content : RawContent) (letters : Text)
    (others : ∀ c ∈ u, Text.isLetter c = true) :
    Reads (rawEndName content letters) u [] (rawEndName content (letters ++ u)) := by
  induction u generalizing letters with
  | nil =>
    rw [List.append_nil]
    exact ⟨rfl, rfl⟩
  | cons c u ih =>
    obtain ⟨first, later⟩ := List.forall_mem_cons.mp others
    have next := ih (letters ++ [c]) later
    rw [List.append_assoc] at next
    refine .silent ?_ next
    show stepRawEndName content letters c = _
    rw [stepRawEndName]
    simp only [first, if_true]

/-- After a word in content without tags, at most what the word goes on with is different. -/
theorem InRaw.beside_word {content : RawContent} (h : InRaw state content) (word : u.IsWord)
    (told : ∃ d tokens, state.run (u ++ rest) = .character d :: tokens) :
    Beside rest (state.after u) (raw content) := by
  have letters := word.2
  cases h with
  | content isOpen => exact beside_word_raw isOpen letters rest
  | reference element ref => exact beside_word_rawReference element ref letters rest
  | @less content held =>
    obtain ⟨c, u, rfl, first, others⟩ := word.head
    obtain ⟨content', step, isOpen, same⟩ := stepRawLess_of_letter held first
    show Beside rest ((stepRawLess content c).1.after u) _
    rw [step, ← same]
    exact beside_word_raw isOpen others rest
  | @endOpen content held =>
    obtain ⟨c, u, rfl, first, others⟩ := word.head
    have opens : stepRawEndOpen content c = (rawEndName content [c], []) := if_pos first
    have reads : Reads (rawEndOpen content) (c :: u) [] (rawEndName content ([c] ++ u)) :=
      .silent opens (reads_endName content [c] others)
    rw [reads.run] at told
    rw [reads.reached]
    exact .stray _ (.of_held held) told
  | @endName content seen held =>
    have reads := reads_endName content seen letters
    rw [reads.run] at told
    rw [reads.reached]
    exact .stray _ (.of_held held) told

theorem InRaw.takesContent {content : RawContent} (h : InRaw state content) (s : Sentinel)
    (slot : Nat) : TakesContent s slot state (raw content) := by
  have taken : ∀ {content : RawContent} {pending held}, Raw state content pending held →
      content.Open → TakesContent s slot state (raw content.calm) := by
    intro content pending held isRaw isOpen
    obtain ⟨before, reads⟩ := isRaw.reads_commentMarker isOpen s slot
    exact .text reads
  cases h with
  | content isOpen => exact taken (.plain _) isOpen
  | reference element ref => exact taken (.reference element ref) trivial
  | less held => exact taken (.less _) held.isOpen
  | endOpen held => exact taken (.endOpen _) held.isOpen
  | endName letters held => exact taken (.endName _ letters) held.isOpen

/-- Side by side, both readings are in the same content. -/
theorem Beside.inRaw {content : RawContent} (h : Beside rest next state)
    (h' : InRaw state content) :
    InRaw next content := by
  cases h with
  | alike alike =>
    cases alike with
    | same => exact h'
    | _ => cases h'
  | deeper deeper =>
    cases deeper with
    | plain shallow =>
      cases h' with
      | content _ => exact .content shallow
    | opening dashes =>
      cases h' with
      | content _ => exact .content trivial
    | less dashes =>
      cases h' with
      | less _ => exact .less (.inside _ dashes)
    | endOpen dashes =>
      cases h' with
      | endOpen _ => exact .endOpen (.inside _ dashes)
    | endName dashes letters =>
      cases h' with
      | endName _ _ => exact .endName letters (.inside _ dashes)
  | rawReference element ref =>
    cases h' with
    | content _ => exact .reference element ref
  | stray letters drops told =>
    cases h' with
    | content _ =>
      cases drops with
      | same element => exact .endName letters (.plain element)
      | outside element => exact .endName letters (.outside element)
      | inside element dashes => exact .endName letters (.inside element dashes)
  | _ => cases h'

theorem Beside.ordinary (h : Beside rest next state) (h' : Ordinary state) : Ordinary next := by
  cases h with
  | alike alike =>
    cases alike with
    | same => exact h'
    | reference alike => cases h'
    | _ => cases h'
  | deeper deeper => cases deeper <;> cases h'
  | reference ref => exact .within ref
  | _ => cases h'

/-- Side by side, both readings are in a mark. -/
theorem Beside.inMark (h : Beside rest next state) (h' : InMark state) : InMark next := by
  cases h' with
  | tag reading =>
    obtain ⟨tag, same, _⟩ := h.exists_tag reading
    exact .tag same
  | remark isRemark =>
    cases h with
    | alike alike =>
      cases alike with
      | same => exact .remark isRemark
      | _ => cases isRemark
    | deeper deeper => cases deeper <;> cases isRemark
    | _ => cases isRemark
  | doctype phase name =>
    cases h with
    | alike alike =>
      cases alike
      exact .doctype phase name
    | deeper deeper => cases deeper

/-! ## Values -/

section Values

variable {tag : Tag} {name word element : Text} {quote : Quote} {attributes : List Attribute}
  {selfClosing : Bool} {tokens : List Token}

theorem reads_word (letters : ∀ c ∈ u, Text.isLetter c = true) (tag : Tag) (name : Text)
    (quote : Quote) : Reads (value tag name quote []) u [] (value tag name quote u) := by
  refine reads_literal (fun c member => ?_) tag name []
  have letter := letters c member
  obtain ⟨_, _, _, _, ampersand, _⟩ := Text.facts_of_isLetter letter
  exact ⟨Quote.ends_of_isLetter letter quote, ampersand, kept_of_ne (ne_null_of_isLetter letter)⟩

/-- A start tag that is told of has all attributes that the tag had before. -/
theorem attributes_of_run (h : state.tag? = some tag)
    (told : state.run rest = .startTag element attributes selfClosing :: tokens) :
    tag.closing = false ∧ ∀ a ∈ tag.attributes, a ∈ attributes := by
  rcases run_tag h rest with none | ⟨tag', closesItself, others, first, grows⟩
  · rw [none] at told
    cases told
  · rw [first] at told
    have token := (List.cons.inj told).1
    unfold Tag.token at token
    split at token
    · cases token
    · rename_i opens
      obtain ⟨rfl, rfl, rfl⟩ := Token.startTag.inj token
      exact ⟨by rw [← grows.closing]; exact Bool.eq_false_iff.mpr opens, grows.attributes⟩

theorem mem_withAttribute (new : ∀ a ∈ tag.attributes, a.name ≠ name) (v : Text) :
    (⟨name, v⟩ : Attribute) ∈ (tag.withAttribute name v).attributes :=
  (Attribute.insert_perm new).mem_iff.mpr List.mem_cons_self

/-- After a value the tag goes on as it does after a quoted one. -/
theorem run_leaveValue (ends : quote.ends c = true) (tag : Tag) (later : Text) : ∃ text,
    (leaveValue tag quote c).2 ++ (leaveValue tag quote c).1.run later =
      (afterValue tag).run text := by
  cases quote with
  | double => exact ⟨later, rfl⟩
  | single => exact ⟨later, rfl⟩
  | none =>
    refine ⟨c :: later, ?_⟩
    show _ = (stepBeforeName tag c).2 ++ (stepBeforeName tag c).1.run later
    unfold leaveValue stepBeforeName
    by_cases greater : c = '>'
    · subst greater
      rfl
    · have blank : Text.isBlank c = true := by
        simp only [Quote.ends, Bool.or_eq_true, beq_iff_eq] at ends
        exact ends.resolve_right greater
      simp only [greater, blank, if_true, if_false]

/-- A word that is told of as a whole value ends right before a character that ends the value. -/
theorem ends_of_whole (named : (value tag name quote word).Named)
    (new : ∀ a ∈ tag.attributes, a.name ≠ name)
    (told : (value tag name quote word).run rest =
      .startTag element attributes selfClosing :: tokens)
    (whole : (⟨name, word⟩ : Attribute) ∈ attributes) :
    ∃ c after, rest = c :: after ∧ quote.ends c = true := by
  cases first : rest.find? quote.ends with
  | none =>
    have goesOn : ∀ c ∈ rest, quote.ends c = false := fun c member =>
      Bool.eq_false_iff.mpr (List.find?_eq_none.mp first c member)
    have silent : (value tag name quote word).run rest = [] :=
      run_inValue .literal goesOn tag name word
    rw [silent] at told
    cases told
  | some c =>
    obtain ⟨ends, text, later, rfl, goesOn⟩ := List.find?_eq_some_iff_append.mp first
    have before : ∀ d ∈ text, quote.ends d = false := fun d member => by simpa using goesOn d member
    obtain ⟨u, spelled, read⟩ := read_inValue .literal before ends
    obtain ⟨more, same⟩ := run_leaveValue ends (tag.withAttribute name (word ++ u)) later
    have next : (afterValue (tag.withAttribute name (word ++ u))).run more =
        .startTag element attributes selfClosing :: tokens := by
      rw [← same, ← read tag name word later]
      exact told
    have known : Tag.Named ⟨false, element, attributes⟩ :=
      named_run named _ (.startTag element attributes selfClosing) (told ▸ List.mem_cons_self)
    have sorted : Attribute.Sorted attributes := known.sorted
    have both := sorted.eq_of_name whole
      ((attributes_of_run rfl next).2 _ (mem_withAttribute new (word ++ u))) rfl
    obtain rfl : u = [] := by
      have same : word = word ++ u := congrArg Attribute.value both
      exact List.append_right_eq_self.mp same.symm
    obtain rfl : text = [] := spelled.eq_nil_of_text_nil
    exact ⟨c, later, rfl, ends⟩

end Values

end State

end HtmlTemplate
