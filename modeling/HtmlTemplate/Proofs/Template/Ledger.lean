import HtmlTemplate.Proofs.Markup.Flow
import HtmlTemplate.Proofs.Template.Tally

/-!
# Keeping account of tokens

Every text that a reader of markup is told of is entered in a ledger: how many tokens of slot
markers it holds. Texts next to each other are one text there, also when only the end tags of
elements without content are between them, since these leave nothing in a template.

How much a text that is still being read may be worth depends on what markup it comes from, which a
`Gauge` knows. If one gauge passes into another when a character is read, an account that is held
within a bound by the first is held by the second (`holds_step`); no more is asked of the tokenizer.
-/

namespace HtmlTemplate

/-! ## Ledgers -/

/-- The tokens in what has been read. -/
structure Ledger where
  /-- The tokens in the texts that are complete. -/
  done : Nat
  /-- The text that may go on. -/
  run : Text

namespace Ledger

variable {s : Sentinel}

/-- The tokens in values of attributes. -/
def attributesWeight (s : Sentinel) : List Attribute → Nat
  | [] => 0
  | a :: rest => s.count a.value + attributesWeight s rest

def total (s : Sentinel) (l : Ledger) : Nat := l.done + s.count l.run

/-- The text is complete, and so is something else with so many tokens. -/
def close (s : Sentinel) (l : Ledger) (more : Nat) : Ledger := ⟨l.total s + more, []⟩

def add (s : Sentinel) (l : Ledger) : Token → Ledger
  | .character c => ⟨l.done, l.run ++ [c]⟩
  | .startTag _ attributes _ => l.close s (attributesWeight s attributes)
  | .endTag name => if Vocabulary.isVoid name then l else l.close s 0
  | .comment data => l.close s (s.count data)
  | .doctype name => l.close s (s.count name)

def addAll (s : Sentinel) (l : Ledger) (tokens : List Token) : Ledger := tokens.foldl (add s) l

theorem addAll_append (l : Ledger) (tokens others : List Token) :
    l.addAll s (tokens ++ others) = (l.addAll s tokens).addAll s others := List.foldl_append

theorem addAll_characters (l : Ledger) (u : Text) :
    l.addAll s (Token.characters u) = ⟨l.done, l.run ++ u⟩ := by
  induction u generalizing l with
  | nil => rw [List.append_nil]; rfl
  | cons c u ih =>
    have later := ih ⟨l.done, l.run ++ [c]⟩
    rw [List.append_assoc] at later
    exact later

/-- An attribute more adds no more than its value. -/
theorem attributesWeight_insert (a : Attribute) (l : List Attribute) :
    attributesWeight s (a.insert l) ≤ attributesWeight s l + s.count a.value := by
  induction l with
  | nil => simp [attributesWeight, Attribute.insert]
  | cons b rest ih =>
    rw [Attribute.insert]
    split
    · omega
    · split
      · simp only [attributesWeight]
        omega
      · simp only [attributesWeight] at ih ⊢
        omega

end Ledger

/-- The tokens in the attribute values of a tag. -/
def Tag.weight (s : Sentinel) (tag : Tag) : Nat := Ledger.attributesWeight s tag.attributes

theorem Tag.weight_withAttribute {s : Sentinel} (tag : Tag) (name value : Text) :
    (tag.withAttribute name value).weight s ≤ tag.weight s + s.count value :=
  Ledger.attributesWeight_insert _ _

theorem State.Extends.weight {s : Sentinel} {tag tag' : Tag} (h : State.Extends tag tag') :
    tag'.weight s ≤ tag.weight s := by
  rcases h.attributes with same | ⟨name, same⟩
  · rw [Tag.weight, same]
    exact Nat.le_refl _
  · have bound := Ledger.attributesWeight_insert (s := s) ⟨name, []⟩ tag.attributes
    rw [Tag.weight, same]
    exact bound

/-! ## Gauges -/

/-- What the texts that are being read are known to be worth at most. -/
structure Gauge where
  /-- In ordinary text, the text so far. -/
  text : State → Text → Nat → Prop
  /-- In an end tag, the text before it. -/
  ending : State → Text → Nat → Prop
  /-- In a reading, the text so far. -/
  part : Reading → Option Reference → Text → Nat → Prop
  /-- Whether a reading that decodes references may begin. -/
  clean : Prop

namespace Gauge

variable {s : Sentinel} {G G' : Gauge} {l : Ledger} {bound extra m : Nat} {c : Char}
  {state : State} {tag : Tag}

/-- What is known holds of the tokens in the texts. -/
structure Sound (s : Sentinel) (G : Gauge) : Prop where
  text {state run m} : G.text state run m → s.count run ≤ m
  ending {state run m} : G.ending state run m → s.count run ≤ m
  part {r pending u m} : G.part r pending u m → s.count u ≤ m
  begins {r} : r = .verbatim ∨ r = .lowered ∨ G.clean → G.part r none [] 0

/-- One gauge passes into another with a character, for so many tokens more. -/
structure Passes (s : Sentinel) (G G' : Gauge) (c : Char) (extra : Nat) : Prop where
  before : G.Sound s
  after : G'.Sound s
  text {state next run u m} : state.IsText → G.text state run m →
    state.step c = (next, Token.characters u) → next.IsText → G'.text next (run ++ u) (m + extra)
  opens {run m} (name : Text) : G.text .endTagOpen run m →
    State.step .endTagOpen c = (.tagName ⟨true, name, []⟩, []) →
    G'.ending (.tagName ⟨true, name, []⟩) run (m + extra)
  ending {state next run m} : G.ending state run m → state.step c = (next, []) →
    G'.ending next run (m + extra)
  closes {state run m} (name : Text) : c = '>' → Vocabulary.isVoid name = true →
    G.ending state run m → state.step c = (.data, [.endTag name]) → G'.text .data run (m + extra)
  begins : c = '>' → G'.text .data [] 0
  part {r pending u m} : G.part r pending u m →
    G'.part r (r.take pending c).2 (u ++ (r.take pending c).1) (m + extra)
  clean : c = '>' ∨ c = '=' ∨ c = '"' ∨ c = '\'' ∨ Text.isBlank c = true → G'.clean

/-- The account is within a bound in a state of the tokenizer, by what a gauge knows. -/
inductive Holds (s : Sentinel) (G : Gauge) (l : Ledger) (bound : Nat) : State → Prop
  | text {state : State} {m : Nat} : state.IsText → G.text state l.run m → l.done + m ≤ bound →
      Holds s G l bound state
  | raw {state : State} {content : RawContent} {pending : Option Reference}
      {held : Text} {m : Nat} :
      state.Raw content pending held → Vocabulary.isVoid content.element = false →
      G.part content.reading pending (l.run ++ held) m → l.done + m ≤ bound →
      Holds s G l bound state
  | ending {state : State} {tag : Tag} {m : Nat} : state.tag? = some tag → tag.closing = true →
      G.ending state l.run m → l.done + m ≤ bound → Holds s G l bound state
  | rawEnding {state : State} {tag : Tag} : state.tag? = some tag → tag.closing = true →
      ¬ state.InTagName → Vocabulary.isVoid tag.name = false → l.total s ≤ bound →
      Holds s G l bound state
  | opening {state : State} {tag : Tag} : state.Outside tag → tag.closing = false →
      (state.AtValue → G.clean) → l.total s + tag.weight s ≤ bound → Holds s G l bound state
  | value {tag : Tag} {name v : Text} {quote : Quote} {position : Option Reference} {m : Nat} :
      tag.closing = false → G.part (.decoded true) position v m →
      l.total s + tag.weight s + m ≤ bound →
      Holds s G l bound (State.inValue tag name quote v position)
  | remark {state : State} {u : Text} {m : Nat} : state.Remark u → G.part .verbatim none u m →
      l.total s + m ≤ bound → Holds s G l bound state
  | doctype {phase : DoctypePhase} {name : Text} : phase ≠ .name →
      l.total s + s.count name ≤ bound → Holds s G l bound (.doctype phase name)
  | doctypeName {name : Text} {m : Nat} : G.part .lowered none name m → l.total s + m ≤ bound →
      Holds s G l bound (.doctype .name name)

/-- What is enough for one gauge is enough for another that knows no less. -/
theorem Holds.imp
    (text : ∀ {state run m}, state.IsText → G.text state run m → G'.text state run m)
    (ending : ∀ {state run m}, G.ending state run m → G'.ending state run m)
    (part : ∀ {r pending u m}, G.part r pending u m → G'.part r pending u m)
    (clean : G.clean → G'.clean) (h : Holds s G l bound state) : Holds s G' l bound state := by
  cases h with
  | text isText known h => exact .text isText (text isText known) h
  | raw isRaw element known h => exact .raw isRaw element (part known) h
  | ending reading closing known h => exact .ending reading closing (ending known) h
  | rawEnding reading closing named element h => exact .rawEnding reading closing named element h
  | opening outside closing begins h =>
    exact .opening outside closing (fun atValue => clean (begins atValue)) h
  | value closing known h => exact .value closing (part known) h
  | remark isRemark known h => exact .remark isRemark (part known) h
  | doctype other h => exact .doctype other h
  | doctypeName known h => exact .doctypeName (part known) h

/-! ## Steps -/

section Steps

variable (passes : Passes s G G' c extra)

include passes

/-- Nothing is being read after a mark that is complete. -/
theorem holds_data (last : c = '>') (h : l.total s ≤ bound) :
    Holds s G' ⟨l.total s, []⟩ bound .data :=
  .text trivial (passes.begins last) h

theorem holds_startTag (last : c = '>') (closing : tag.closing = false) (closesItself : Bool)
    (h : l.total s + tag.weight s ≤ bound) :
    Holds s G' (l.addAll s (State.closeTag tag closesItself).2) bound
      (State.closeTag tag closesItself).1 := by
  have entered : l.addAll s (State.closeTag tag closesItself).2 =
      ⟨l.total s + tag.weight s, []⟩ := by
    rw [State.closeTag, Tag.token, closing]
    rfl
  have raw : ∀ content : RawContent, Vocabulary.isVoid content.element = false →
      Holds s G' ⟨l.total s + tag.weight s, []⟩ bound (.raw content) := fun content known =>
    .raw (.plain content) known (passes.after.begins (.inr (.inr (passes.clean (.inl last))))) h
  have data : Holds s G' ⟨l.total s + tag.weight s, []⟩ bound .data :=
    .text trivial (passes.begins last) h
  rw [entered]
  show Holds s G' _ bound (State.afterTag tag closesItself)
  unfold State.afterTag State.content
  split
  · exact data
  · split
    · rename_i element
      refine raw _ ?_
      rcases element with same | same <;> rw [RawContent.element, same] <;> decide
    · split
      · rename_i element
        refine raw _ ?_
        rcases element with same | same <;> rw [RawContent.element, same] <;> decide
      · exact data

theorem holds_remark {u : Text} {next : State × List Token} (move : State.RemarkMove u c next)
    (known : G.part .verbatim none u m) (h : l.total s + m ≤ bound) :
    Holds s G' (l.addAll s next.2) (bound + extra) next.1 := by
  cases move with
  | on remark =>
    exact .remark remark (passes.part known) (by
      show l.total s + _ ≤ _
      omega)
  | comment =>
    exact .remark (.comment .start []) (passes.after.begins (.inl rfl)) (by
      show l.total s + 0 ≤ _
      omega)
  | doctype =>
    exact .doctype (by decide) (by
      show l.total s + 0 ≤ _
      omega)
  | @closes v rest last split =>
    have part := s.count_le_append v rest
    have whole := passes.before.part known
    rw [split] at whole
    exact .text trivial (passes.begins last) (by
      show l.total s + s.count v + 0 ≤ _
      omega)

theorem holds_stepText (text : state.IsText) (known : G.text state l.run m)
    (h : l.done + m ≤ bound) :
    Holds s G' (l.addAll s (state.step c).2) (bound + extra) (state.step c).1 := by
  have total : l.total s ≤ bound :=
    Nat.le_trans (Nat.add_le_add_left (passes.before.text known) _) h
  have empty : G.part .verbatim none [] 0 := passes.before.begins (.inl rfl)
  have move := State.step_text text c
  generalize next : state.step c = after at move
  cases move with
  | text isText _ =>
    rw [Ledger.addAll_characters]
    exact .text isText (passes.text text known next isText) (by
      show l.done + _ ≤ _
      omega)
  | declaration =>
    exact .remark (.declaration []) (passes.after.begins (.inl rfl)) (by
      show l.total s + 0 ≤ _
      omega)
  | bogus =>
    exact .remark (.bogus [State.kept c]) (passes.part empty) (by
      show l.total s + (0 + extra) ≤ _
      omega)
  | startTag name =>
    exact .opening (.tagName _) rfl False.elim (by
      show l.total s + 0 ≤ _
      omega)
  | endTag name opened =>
    subst opened
    exact .ending rfl rfl (passes.opens name known next) (by
      show l.done + _ ≤ _
      omega)

theorem holds_stepRaw {content : RawContent} {pending : Option Reference} {held : Text}
    (raw : state.Raw content pending held) (element : Vocabulary.isVoid content.element = false)
    (known : G.part content.reading pending (l.run ++ held) m) (h : l.done + m ≤ bound) :
    Holds s G' (l.addAll s (state.step c).2) (bound + extra) (state.step c).1 := by
  have total : l.total s ≤ bound := by
    have part := s.count_le_append l.run held
    have whole := passes.before.part known
    rw [Ledger.total]
    omega
  have move := State.step_raw raw c
  generalize state.step c = after at move
  cases move with
  | @on next u goes =>
    obtain ⟨content', held', isRaw, same, reading, split⟩ := goes.goes
    have later := passes.part known
    rw [List.append_assoc, split, ← List.append_assoc, ← reading] at later
    rw [Ledger.addAll_characters]
    rw [← reading] at isRaw
    exact .raw isRaw (same ▸ element) later (by
      show l.done + _ ≤ _
      omega)
  | attributes => exact .rawEnding rfl rfl False.elim element (Nat.le_add_right_of_le total)
  | slash => exact .rawEnding rfl rfl False.elim element (Nat.le_add_right_of_le total)
  | closes last =>
    have closed : l.addAll s [.endTag content.element] = ⟨l.total s, []⟩ := by
      show (if Vocabulary.isVoid content.element = true then l else l.close s 0) = _
      rw [element]
      rfl
    rw [closed]
    exact holds_data passes last (Nat.le_add_right_of_le total)

theorem holds_stepEnding (reading : state.tag? = some tag) (closing : tag.closing = true)
    (known : G.ending state l.run m) (h : l.done + m ≤ bound) :
    Holds s G' (l.addAll s (state.step c).2) (bound + extra) (state.step c).1 := by
  have move := State.step_endTag reading closing c
  generalize next : state.step c = after at move
  cases move with
  | on reading' closing' _ _ =>
    exact .ending reading' closing' (passes.ending known next) (by
      show l.done + _ ≤ _
      omega)
  | closes last =>
    show Holds s G' (if Vocabulary.isVoid tag.name = true then l else l.close s 0) _ _
    split
    · rename_i isVoid
      exact .text trivial (passes.closes tag.name last isVoid known next) (by omega)
    · refine holds_data passes last ?_
      have total := passes.before.ending known
      rw [Ledger.total]
      omega

theorem holds_stepRawEnding (reading : state.tag? = some tag) (closing : tag.closing = true)
    (named : ¬ state.InTagName) (element : Vocabulary.isVoid tag.name = false)
    (h : l.total s ≤ bound) :
    Holds s G' (l.addAll s (state.step c).2) (bound + extra) (state.step c).1 := by
  have move := State.step_endTag reading closing c
  generalize state.step c = after at move
  cases move with
  | on reading' closing' stays keeps =>
    refine .rawEnding reading' closing' (fun inName => named (stays inName)) ?_
      (Nat.le_add_right_of_le h)
    rw [keeps.resolve_left named]
    exact element
  | closes last =>
    have closed : l.addAll s [.endTag tag.name] = ⟨l.total s, []⟩ := by
      show (if Vocabulary.isVoid tag.name = true then l else l.close s 0) = _
      rw [element]
      rfl
    rw [closed]
    exact holds_data passes last (Nat.le_add_right_of_le h)

theorem holds_valueMove {name v : Text} {position : Option Reference} {next : State × List Token}
    (move : State.ValueMove tag name v position c next) (closing : tag.closing = false)
    (known : G.part (.decoded true) position v m) (h : l.total s + tag.weight s + m ≤ bound) :
    Holds s G' (l.addAll s next.2) (bound + extra) next.1 := by
  have later := passes.part known
  -- The value that ends is worth no more than it is together with the character that ends it.
  have ends : ∀ {w}, v ++ ((Reading.decoded true).take position c).1 = w ++ [State.kept c] →
      l.total s + (tag.withAttribute name w).weight s ≤ bound + extra := by
    intro w split
    have whole := passes.after.part later
    have part := s.count_le_append w [State.kept c]
    have weight := tag.weight_withAttribute (s := s) name w
    rw [split] at whole
    omega
  cases move with
  | on quote =>
    exact .value closing later (by
      show l.total s + _ + _ ≤ _
      omega)
  | ends split outside notAtValue _ =>
    exact .opening outside closing (fun atValue => absurd atValue notAtValue) (ends split)
  | @closes w last split =>
    have closed : (tag.withAttribute name w).closing = false := closing
    exact holds_startTag passes last closed false (ends split)

theorem holds_stepOpening (outside : state.Outside tag) (closing : tag.closing = false)
    (clean : state.AtValue → G.clean) (h : l.total s + tag.weight s ≤ bound) :
    Holds s G' (l.addAll s (state.step c).2) (bound + extra) (state.step c).1 := by
  have move := State.step_outside outside c
  generalize state.step c = after at move
  cases move with
  | on outside' same begins _ _ =>
    refine .opening outside' (same.closing.trans closing) (fun atValue => passes.clean ?_) ?_
    · rcases begins atValue with equals | blank
      · exact .inr (.inl equals)
      · exact .inr (.inr (.inr (.inr blank)))
    · have weight := same.weight (s := s)
      show l.total s + _ ≤ _
      omega
  | closes closesItself last same _ =>
    refine holds_startTag passes last (same.closing.trans closing) closesItself ?_
    have weight := same.weight (s := s)
    omega
  | quoted name quote _ mark =>
    have begins := passes.after.begins (r := .decoded true) (.inr (.inr (passes.clean
      (.inr (.inr (mark.imp id .inl))))))
    have next : Holds s G' l (bound + extra) (State.inValue tag name quote [] none) :=
      .value closing begins (by
        show l.total s + _ + 0 ≤ _
        omega)
    exact next
  | unquoted name atValue =>
    exact holds_valueMove passes (State.valueMove_stepValue tag name .none [] c) closing
      (passes.before.begins (.inr (.inr (clean atValue)))) h

/-- A character takes what one gauge knows to what another knows. -/
theorem holds_step (h : Holds s G l bound state) :
    Holds s G' (l.addAll s (state.step c).2) (bound + extra) (state.step c).1 := by
  cases h with
  | text isText known h => exact holds_stepText passes isText known h
  | raw isRaw element known h => exact holds_stepRaw passes isRaw element known h
  | ending reading closing known h => exact holds_stepEnding passes reading closing known h
  | rawEnding reading closing named element h =>
    exact holds_stepRawEnding passes reading closing named element h
  | opening outside closing clean h => exact holds_stepOpening passes outside closing clean h
  | @value tag name v quote position m closing known h =>
    exact holds_valueMove passes (State.step_inValue tag name quote v position c) closing known h
  | remark isRemark known h => exact holds_remark passes (State.step_remark isRemark c) known h
  | @doctype phase name other h =>
    have move := State.step_doctype phase name c
    generalize State.step (.doctype phase name) c = after at move
    cases move with
    | skips phase' other' => exact .doctype other' (Nat.le_add_right_of_le h)
    | begins _ =>
      have known := passes.part (passes.before.begins (r := .lowered) (.inr (.inl rfl)))
      exact .doctypeName known (by
        show l.total s + _ ≤ _
        omega)
    | on same => exact absurd same other
    | closes last =>
      exact .text trivial (passes.begins last) (by
        show l.total s + s.count name + 0 ≤ _
        omega)
  | @doctypeName name m known h =>
    have count := passes.before.part known
    have move := State.step_doctype .name name c
    generalize State.step (.doctype .name name) c = after at move
    cases move with
    | skips phase' other' =>
      exact .doctype other' (by
        show l.total s + _ ≤ _
        omega)
    | begins same => cases same
    | on _ =>
      exact .doctypeName (passes.part known) (by
        show l.total s + _ ≤ _
        omega)
    | closes last =>
      exact .text trivial (passes.begins last) (by
        show l.total s + s.count name + 0 ≤ _
        omega)

end Steps

end Gauge

end HtmlTemplate
