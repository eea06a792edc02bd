import HtmlTemplate.Proofs.Output.Escaped
import HtmlTemplate.Proofs.Value.Resolved

/-!
# Escaped exactly once

What a slot is to say is its reference: the text of the value or of what a transformation makes of
it, the declarations of a style object, the call of a handler, the texts of the leaves of content
one after the other, or nothing. Whatever is written without being escaped, numbers and the words
around a handler, has no characters to escape, so that a slot is written as its reference with
everything escaped (`written_eq_escape`), and reading the entities back once gives the reference
(`escaped_once`).
-/

namespace HtmlTemplate

namespace Text

/-! ## Entities -/

/-- The references that `escape` writes. -/
def entities : List Text :=
  [['&', 'a', 'm', 'p', ';'], ['&', 'l', 't', ';'], ['&', 'g', 't', ';'],
    ['&', 'q', 'u', 'o', 't', ';'], ['&', '#', '3', '9', ';']]

/-- The other characters that `escape` replaces. -/
def marks : Text := ['<', '>', '"', '\'']

/-- Every other character is written as it is. -/
theorem escapeChar_eq_self {c : Char} (plain : c ∉ '&' :: marks) : escapeChar c = [c] := by
  simp only [marks, List.mem_cons, List.not_mem_nil, or_false, not_or] at plain
  obtain ⟨ampersand, less, greater, double, single⟩ := plain
  simp only [escapeChar, ampersand, less, greater, double, single, if_false]

theorem cases_of_special {c : Char} (special : c ∈ '&' :: marks) :
    c = '&' ∨ c = '<' ∨ c = '>' ∨ c = '"' ∨ c = '\'' := by
  simpa [marks] using special

/-- A text in which there is nothing to escape. -/
def Literal (s : Text) : Prop := ∀ c ∈ s, c ∉ '&' :: marks

theorem escape_eq_self {s : Text} (plain : Literal s) : escape s = s := by
  induction s with
  | nil => rfl
  | cons c s ih =>
    rw [escape_cons, escapeChar_eq_self (plain c List.mem_cons_self),
      ih fun d member => plain d (List.mem_cons_of_mem c member)]
    rfl

theorem escape_between {before after : Text} (left : Literal before) (right : Literal after)
    (s : Text) :
    escape (before ++ s ++ after) = before ++ escape s ++ after := by
  rw [escape_append, escape_append, escape_eq_self left, escape_eq_self right]

/-- A text in which nothing has a meaning in markup but entities. -/
structure Harmless (text : Text) : Prop where
  marks : ∀ c ∈ text, c ∉ marks
  references : ∀ after, '&' :: after <:+ text → ∃ entity ∈ entities, entity <+: '&' :: after

namespace Harmless

variable {text : Text}

theorem nil : Harmless [] :=
  ⟨fun _ member => absurd member List.not_mem_nil,
    fun _ suffix => by cases List.suffix_nil.mp suffix⟩

theorem cons {c : Char} (h : Harmless text) (plain : c ∉ Text.marks)
    (begins : c = '&' → ∃ entity ∈ entities, entity <+: c :: text) : Harmless (c :: text) := by
  refine ⟨List.forall_mem_cons.mpr ⟨plain, h.marks⟩, fun after suffix => ?_⟩
  rcases List.suffix_cons_iff.mp suffix with same | later
  · rw [same]
    exact begins (List.cons.inj same).1.symm
  · exact h.references after later

theorem append {name : Text} (h : Harmless text) (plain : Literal name) :
    Harmless (name ++ text) := by
  induction name with
  | nil => exact h
  | cons c name ih =>
    obtain ⟨ampersand, mark⟩ := List.ne_and_not_mem_of_not_mem_cons (plain c List.mem_cons_self)
    exact (ih fun d member => plain d (List.mem_cons_of_mem c member)).cons mark
      fun same => absurd same ampersand

/-- An entity goes before anything. -/
theorem entity {name : Text} (h : Harmless text) (known : '&' :: name ∈ entities)
    (plain : Literal name) : Harmless ('&' :: name ++ text) :=
  (h.append plain).cons (by decide) fun _ => ⟨_, known, List.prefix_append _ text⟩

theorem escapeChar_append (h : Harmless text) (c : Char) : Harmless (escapeChar c ++ text) := by
  by_cases special : c ∈ '&' :: Text.marks
  · rcases cases_of_special special with rfl | rfl | rfl | rfl | rfl <;>
      exact h.entity (by decide) (List.all_iff_forall_prop.mp (by decide))
  · have same : escapeChar c = [c] := escapeChar_eq_self special
    rw [same]
    exact h.append fun d member => by rw [List.mem_singleton.mp member]; exact special

end Harmless

theorem harmless_escape (s : Text) : Harmless (escape s) := by
  induction s with
  | nil => exact .nil
  | cons c s ih =>
    rw [escape_cons]
    exact ih.escapeChar_append c

theorem unescape_cons {c : Char} (other : c ≠ '&') (s : Text) :
    unescape (c :: s) = c :: unescape s := by
  rw [unescape] <;> rintro _ rfl <;> exact fun _ => other rfl

/-- Escaping is undone by reading the entities back once. -/
theorem unescape_escape (s : Text) : unescape (escape s) = s := by
  induction s with
  | nil => rfl
  | cons c s ih =>
    rw [escape_cons]
    rcases escapeChar_cases c with ⟨same, ampersand, _⟩ | rfl | rfl | rfl | rfl | rfl
    · rw [same, List.singleton_append, unescape_cons ampersand, ih]
    all_goals exact congrArg (_ :: ·) ih

/-! ## Texts with nothing to escape -/

namespace Literal

variable {s t : Text}

theorem append (h : Literal s) (k : Literal t) : Literal (s ++ t) := fun c member =>
  (List.mem_append.mp member).elim (h c) (k c)

theorem of_subset (h : Literal s) (part : t ⊆ s) : Literal t := fun c member => h c (part member)

theorem ite {p : Prop} [Decidable p] (h : Literal s) (k : Literal t) :
    Literal (if p then s else t) := by
  split
  · exact h
  · exact k

theorem of_all (all : (s.all fun c => decide (c ∉ '&' :: marks)) = true) : Literal s :=
  fun c member =>
  of_decide_eq_true (List.all_eq_true.mp all c member)

theorem of_isDigit (digits : ∀ c ∈ s, isDigit c = true) : Literal s := by
  intro c member special
  have none : ∀ c ∈ '&' :: marks, isDigit c = false := List.all_iff_forall_prop.mp (by decide)
  have digit := digits c member
  rw [none c special] at digit
  cases digit

theorem ofNat (n : Nat) : Literal (Text.ofNat n) := of_isDigit fun _ => isDigit_of_mem_ofNat

theorem ofInt (n : Int) : Literal (Text.ofInt n) := by
  have minus : Literal ['-'] := .of_all rfl
  cases n with
  | ofNat n => exact .ofNat n
  | negSucc n => exact minus.append (.ofNat (n + 1))

end Literal

end Text

namespace NumberFormat

open Text

variable {n : NumberFormat} {digits : Text}

theorem literal_positional (h : Literal digits) (point : Int) :
    Literal (n.positional digits point) := by
  have zeros : ∀ count, Literal (List.replicate count '0') := fun count =>
    .of_isDigit fun c member => by rw [(List.mem_replicate.mp member).2]; rfl
  have dot : Literal ['.'] := .of_all rfl
  have lead : Literal ['0', '.'] := .of_all rfl
  have whole : Literal (digits.take point.toNat) := h.of_subset (List.take_subset _ _)
  have fraction : Literal (digits.drop point.toNat) := h.of_subset (List.drop_subset _ _)
  exact .ite ((lead.append (zeros _)).append h)
    (.ite ((whole.append (zeros _)).append (.ite (.of_all rfl) (.of_all rfl)))
      ((whole.append (zeros _)).append (dot.append fraction)))

theorem literal_scientific (h : Literal digits) (point : Int) :
    Literal (n.scientific digits point) := by
  have dot : Literal ['.'] := .of_all rfl
  have mark : Literal ['e'] := .of_all rfl
  have fraction : Literal (if digits.length ≤ 1 then [] else '.' :: digits.drop 1) :=
    .ite (.of_all rfl) (dot.append (h.of_subset (List.drop_subset _ _)))
  exact ((h.of_subset (List.take_subset _ _)).append fraction).append
    (mark.append ((Literal.ite (.of_all rfl) (.of_all rfl)).append (.ofInt _)))

theorem literal_magnitude (mantissa : Nat) (exponent : Int) :
    Literal (n.magnitude mantissa exponent) := by
  have digits : Literal (trimZeros (Text.ofNat (Decimal.shortest mantissa exponent).coefficient)) :=
    (Literal.ofNat _).of_subset fun c member => List.mem_reverse.mp
      (List.dropWhile_subset _ (List.mem_reverse.mp member))
  exact .ite (literal_positional digits _) (literal_scientific digits _)

/-- Numbers are written without anything to escape. -/
theorem literal_write (nan : Literal n.nan) (infinity : Literal n.infinity) (x : Binary64) :
    Literal (n.write x) := by
  have minus : Literal ['-'] := .of_all rfl
  have none : Literal [] := .of_all rfl
  have zero : Literal (if n.keepsFraction then ['0', '.', '0'] else ['0']) :=
    .ite (.of_all rfl) (.of_all rfl)
  cases x with
  | nan => exact nan
  | infinite negative => exact (Literal.ite minus none).append infinity
  | finite negative mantissa exponent =>
    exact .ite ((Literal.ite minus none).append zero)
      ((Literal.ite minus none).append (literal_magnitude mantissa exponent))

end NumberFormat

/-! ## References -/

namespace Content

mutual

/-- What the content of a value is made of: the values that are reached through arrays and
components, and what an object comes to. -/
def leavesWith (object : List (Text × Value) → List Value) : Value → List Value
  | .array items => leavesAllWith object items
  | .component _ body => leavesWith object body
  | .object entries => object entries
  | v => [v]

/-- What the content of values is made of. -/
def leavesAllWith (object : List (Text × Value) → List Value) : List Value → List Value
  | [] => []
  | v :: rest => leavesWith object v ++ leavesAllWith object rest

end

/-- What an object comes to that may be replaced `expansions` times in a row. -/
def leavesOf (options : Options) : Nat → List (Text × Value) → List Value
  | 0, entries => [.object entries]
  | expansions + 1, entries =>
    match options.transform? entries with
    | some transformed => leavesWith (leavesOf options expansions) transformed.result
    | none => [.object entries]

/-- What the content of a value is made of: the values that are reached through arrays, components
and transformers, in order. -/
def leaves (options : Options) (value : Value) : List Value :=
  leavesWith (leavesOf options options.expansions) value

/-- The text of such a value. A handler has no text in content. -/
def leafText : Value → Text
  | .handler _ => []
  | v => v.text.result

end Content

namespace Slot

/-- What an event attribute is to say: the call of a handler, and otherwise the text of a plain
value that is not absent. -/
def eventText : Value → Text
  | .handler source => handlerCall (Handler.normalize source)
  | .bool b => if b then (Value.bool b).text.result else []
  | .int n => if n = 0 then [] else (Value.int n).text.result
  | .float x => if (Value.float x).isFalsy then [] else (Value.float x).text.result
  | .str s => s
  | _ => []

/-- What a `style` attribute is to say: the declarations of an object one after the other, and
otherwise the text of the value. -/
def styleText : Value → Text
  | .object entries => entries.flatMap fun (key, value) =>
      Style.hyphenate key ++ ':' :: (Style.declared key value).result ++ [';']
  | v => v.text.result

/-- What an attribute with a transformation is to say: the text of what it makes of the value, and
of the value itself if the options have none. -/
def intentText (options : Options) (name : Text) (value : Value) : Text :=
  match Entries.get? name options.intents with
  | none => value.text.result
  | some transform =>
    match (transform none value).result with
    | .ok result => result.text.result
    | .error _ => []

/-- What a slot of a kind is to say, before anything is escaped. -/
def reference (options : Options) (kind : SlotKind) (value : Value) : Text :=
  match kind with
  | .event => eventText value
  | .boolean name => if isOn value then ' ' :: name else []
  | .style => styleText value
  | .intent name => intentText options name value
  | .generic => value.text.result
  | .content => (Content.leaves options value).flatMap Content.leafText

end Slot

/-! ## Writing is escaping -/

namespace Content

variable {options : Options}

theorem leavesAllWith_eq_flatMap (object : List (Text × Value) → List Value) (items : List Value) :
    leavesAllWith object items = items.flatMap (leavesWith object) := by
  induction items with
  | nil => rfl
  | cons v rest ih => rw [leavesAllWith, ih, List.flatMap_cons]

theorem escape_text_bool (b : Bool) :
    Text.escape (Value.bool b).text.result = (Value.bool b).text.result := by
  cases b <;> exact Text.escape_eq_self (.of_all rfl)

theorem escape_text_int (n : Int) :
    Text.escape (Value.int n).text.result = (Value.int n).text.result :=
  Text.escape_eq_self (.ofInt n)

theorem escape_text_float (x : Float) :
    Text.escape (Value.float x).text.result = (Value.float x).text.result :=
  Text.escape_eq_self (NumberFormat.literal_write (.of_all rfl) (.of_all rfl) _)

/-- Without trusted markup among its leaves, content is the texts of its leaves, escaped. -/
theorem writeWith_eq_escape {object : List (Text × Value) → Noted Text}
    {comesTo : List (Text × Value) → List Value}
    (each : ∀ entries, (∀ leaf ∈ comesTo entries, ∀ markup, leaf ≠ .html markup) →
      (object entries).result = Text.escape ((comesTo entries).flatMap leafText)) {v : Value}
    (plain : ∀ leaf ∈ leavesWith comesTo v, ∀ markup, leaf ≠ .html markup) :
    (writeWith object v).result = Text.escape ((leavesWith comesTo v).flatMap leafText) := by
  induction v using Value.elementInduction with
  | array items ih =>
    rw [leavesWith, leavesAllWith_eq_flatMap] at plain ⊢
    rw [writeWith, Value.writeAllWith_result]
    induction items with
    | nil => rfl
    | cons v rest ihRest =>
      rw [List.flatMap_cons] at plain ⊢
      rw [List.map_cons, List.flatten_cons, List.flatMap_append, Text.escape_append,
        ih v List.mem_cons_self fun leaf member => plain leaf (List.mem_append_left _ member),
        ihRest (fun u member => ih u (List.mem_cons_of_mem v member))
          fun leaf member => plain leaf (List.mem_append_right _ member)]
  | component name body ih => exact ih plain
  | object entries => exact each entries plain
  | html markup => exact absurd rfl (plain _ (List.mem_singleton.mpr rfl) markup)
  | bool b =>
    have alone : (leavesWith comesTo (.bool b)).flatMap leafText = (Value.bool b).text.result :=
      List.append_nil _
    rw [alone, escape_text_bool]
    rfl
  | int n =>
    have alone : (leavesWith comesTo (.int n)).flatMap leafText = (Value.int n).text.result :=
      List.append_nil _
    rw [alone, escape_text_int]
    rfl
  | float x =>
    have alone : (leavesWith comesTo (.float x)).flatMap leafText = (Value.float x).text.result :=
      List.append_nil _
    rw [alone, escape_text_float]
    rfl
  | str s =>
    have alone : (leavesWith comesTo (.str s)).flatMap leafText = s := List.append_nil s
    rw [alone]
    rfl
  | _ => rfl

theorem writeObject_eq_escape {n : Nat} (entries : List (Text × Value))
    (plain : ∀ leaf ∈ leavesOf options n entries, ∀ markup, leaf ≠ .html markup) :
    (writeObject options n entries).result =
      Text.escape ((leavesOf options n entries).flatMap leafText) := by
  induction n generalizing entries with
  | zero => rfl
  | succ n ih =>
    unfold leavesOf at plain ⊢
    unfold writeObject
    cases found : options.transform? entries with
    | none => rfl
    | some transformed =>
      rw [found] at plain
      exact writeWith_eq_escape ih plain

theorem write_eq_escape {value : Value}
    (plain : ∀ leaf ∈ leaves options value, ∀ markup, leaf ≠ .html markup) :
    (write options value).result = Text.escape ((leaves options value).flatMap leafText) :=
  writeWith_eq_escape writeObject_eq_escape plain

end Content

namespace Slot

variable {options : Options} {kind : SlotKind} {value : Value} {text : Text}

theorem escape_handlerCall (source : Text) :
    Text.escape (handlerCall source) = handlerCall (Text.escape source) := by
  exact Text.escape_between (.of_all (by decide)) (.of_all (by decide)) source

theorem event_eq_escape (value : Value) : (event value).result = Text.escape (eventText value) := by
  cases value with
  | handler source => exact (escape_handlerCall _).symm
  | bool b => cases b <;> rfl
  | int n =>
    by_cases zero : n = 0
    · rw [zero]
      rfl
    · simp [event, eventText, Value.isFalsy, zero]
  | float x =>
    by_cases falsy : (Value.float x).isFalsy = true
    · simp only [event, eventText, falsy, if_true]
      rfl
    · simp [event, eventText, falsy]
  | str s => cases s <;> rfl
  | _ => rfl

theorem declarations_eq (entries : List (Text × Value)) :
    (Style.declarations entries).result = styleText (.object entries) := by
  induction entries with
  | nil => rfl
  | cons entry rest ih =>
    obtain ⟨key, value⟩ := entry
    rw [styleText, List.flatMap_cons, ← styleText, ← ih]
    simp [Style.declarations]

theorem style_eq_escape (value : Value) :
    (Style.write value).result = Text.escape (styleText value) := by
  cases value with
  | object entries => exact congrArg Text.escape (declarations_eq entries)
  | _ => rfl

theorem intent_eq_escape {name : Text} (h : (intent options name value).result = .ok text) :
    text = Text.escape (intentText options name value) := by
  unfold intent at h
  unfold intentText
  cases found : Entries.get? name options.intents with
  | none =>
    rw [found] at h
    exact (Except.ok.inj h).symm
  | some transform =>
    simp only [found] at h ⊢
    cases made : (transform none value).result with
    | error reason =>
      simp only [Noted.bind_result, made] at h
      cases h
    | ok result =>
      simp only [Noted.bind_result, made] at h ⊢
      cases result with
      | null => exact (Except.ok.inj h).symm
      | _ => exact (Except.ok.inj h).symm

/-- A slot is written as its reference with everything escaped. -/
theorem written_eq_escape (boolean : ∀ name, kind ≠ .boolean name)
    (plain : kind = .content → ∀ leaf ∈ Content.leaves options value, ∀ markup, leaf ≠ .html markup)
    (h : (written options kind value).result = .ok text) :
    text = Text.escape (reference options kind value) := by
  cases kind with
  | event => exact (Except.ok.inj h).symm.trans (event_eq_escape value)
  | boolean name => exact absurd rfl (boolean name)
  | style => exact (Except.ok.inj h).symm.trans (style_eq_escape value)
  | intent name => exact intent_eq_escape h
  | generic => exact (Except.ok.inj h).symm
  | content => exact (Except.ok.inj h).symm.trans (Content.write_eq_escape (plain rfl))

/-! ## Main result -/

/-- Without markers, a slot other than a boolean attribute is escaped exactly once, whatever value
it is given and whatever transformations and transformers do: what is written has no meaning in
markup but its entities, and reading these back once gives the reference of the slot. For content
there must be no trusted markup among what is reached through arrays, components and
transformers. -/
theorem escaped_once (unmarked : options.adoptable = false) (valued : ∀ name, kind ≠ .boolean name)
    (plain : kind = .content → ∀ leaf ∈ Content.leaves options value, ∀ markup, leaf ≠ .html markup)
    {line line' : Timeline} (h : write options kind value line = (.ok text, line')) :
    text.Harmless ∧ Text.unescape text = reference options kind value := by
  rw [write_eq_record unmarked] at h
  have result : (written options kind value).result = .ok text := congrArg Prod.fst h
  rw [written_eq_escape valued plain result]
  exact ⟨Text.harmless_escape _, Text.unescape_escape _⟩

/-- An array of a text, a component that renders a number and an object that a transformer takes. -/
theorem escaped_once_mixed :
    let options : Options := { transformers := [(['b'], fun value => pure value)] }
    let value :=
      Value.array [.str ['<'], .component none (.int (-5)), .object [(['b'], .str ['&'])]]
    (write options .content value .start).1 = .ok "&lt;-5&amp;".toList ∧
      Text.Harmless "&lt;-5&amp;".toList ∧
      Text.unescape "&lt;-5&amp;".toList = ['<', '-', '5', '&'] := by
  intro options value
  have plain : ∀ leaf ∈ Content.leaves options value, ∀ markup, leaf ≠ .html markup := by
    have same : Content.leaves options value = [.str ['<'], .int (-5), .str ['&']] := rfl
    rw [same]
    simp
  have written : write options .content value .start =
      (.ok "&lt;-5&amp;".toList, (write options .content value .start).2) := rfl
  obtain ⟨harmless, read⟩ := escaped_once rfl (by simp) (fun _ => plain) written
  exact ⟨rfl, harmless, read.trans rfl⟩

end Slot

end HtmlTemplate
