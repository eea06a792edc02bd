import HtmlTemplate.Proofs.Markup.Spelling
import Mathlib.Data.List.Perm.Subperm

/-!
# Where data come from

The data of markup are its texts, comments and attribute values. The tokenizer does not copy them:
it decodes references, drops repeated attributes and reorders the others. Still every datum is
spelled by a stretch of the markup of its own, and the stretches come one after the other (`Trail`).
This is an invariant of reading character by character (`follows_step`).
-/

namespace HtmlTemplate

/-- A piece of text that a reader of markup is told of. -/
inductive Datum where
  /-- The value of an attribute. -/
  | value (body : Text)
  | comment (body : Text)
  /-- Adjacent characters between two marks. -/
  | text (body : Text)

namespace Datum

def body : Datum → Text
  | value body => body
  | comment body => body
  | text body => body

/-- Whether empty end tags are left out of the datum. -/
def gaps : Datum → Bool
  | text _ => true
  | _ => false

end Datum

/-- Where a trail begins: the markup before it, and the data that are known to be spelled there. -/
structure Origin where
  text : Text
  data : List Datum

/-- Before all markup. -/
def Origin.zero : Origin := ⟨[], []⟩

/-- Markup in which the data are spelled one after the other from an origin on. What follows a datum
is no digit. -/
inductive Trail (o : Origin) : Text → List Datum → Prop
  | start : Trail o o.text o.data
  | skip {start : Text} {data : List Datum} (c : Char) : Trail o start data →
      Trail o (start ++ [c]) data
  | take {start w : Text} {data : List Datum} {d : Datum} {c : Char} : Trail o start data →
      Spells d.gaps w d.body → Text.isDigit c = false → Trail o (start ++ w ++ [c]) (data ++ [d])

variable {o : Origin}

theorem Trail.skips {start : Text} {data : List Datum} (h : Trail o start data) (s : Text) :
    Trail o (start ++ s) data := by
  induction s generalizing start with
  | nil =>
    rw [List.append_nil]
    exact h
  | cons c s ih =>
    have later := ih (h.skip c)
    rw [List.append_assoc] at later
    exact later

theorem Trail.append {text rest : Text} {data more : List Datum} (h : Trail o text data)
    (h' : Trail .zero rest more) : Trail o (text ++ rest) (data ++ more) := by
  induction h' with
  | start =>
    rw [show Origin.zero.text = [] from rfl, show Origin.zero.data = [] from rfl, List.append_nil,
      List.append_nil]
    exact h
  | skip c _ ih =>
    rw [← List.append_assoc]
    exact ih.skip c
  | take _ spelled other ih =>
    rw [← List.append_assoc, ← List.append_assoc, ← List.append_assoc]
    exact ih.take spelled other

/-- What follows the origin is a trail of its own. -/
theorem Trail.rest {text : Text} {data : List Datum} (h : Trail o text data) :
    ∃ rest more, text = o.text ++ rest ∧ data = o.data ++ more ∧ Trail .zero rest more := by
  induction h with
  | start => exact ⟨[], [], (List.append_nil _).symm, (List.append_nil _).symm, .start⟩
  | skip c _ ih =>
    obtain ⟨rest, more, rfl, rfl, trail⟩ := ih
    exact ⟨rest ++ [c], more, List.append_assoc _ _ _, rfl, trail.skip c⟩
  | @take _ w _ d c _ spelled other ih =>
    obtain ⟨rest, more, rfl, rfl, trail⟩ := ih
    exact ⟨rest ++ w ++ [c], more ++ [d], by simp only [List.append_assoc],
      List.append_assoc _ _ _, trail.take spelled other⟩

/-! ## What tokens tell -/

/-- The attribute values of a tag that is being read. -/
def Tag.values (tag : Tag) : List Datum := tag.attributes.map fun a => .value a.value

theorem Attribute.insert_subperm (a : Attribute) (l : List Attribute) :
    List.Subperm (a.insert l) (l ++ [a]) := by
  induction l with
  | nil => exact .refl _
  | cons b rest ih =>
    rw [insert]
    split
    · exact (List.sublist_append_left _ _).subperm
    · split
      · have moved : List.Perm (a :: b :: rest) (b :: rest ++ [a]) :=
          (List.perm_append_singleton a (b :: rest)).symm
        exact moved.subperm
      · exact (List.subperm_cons b).mpr ih

theorem Tag.values_withAttribute (tag : Tag) (name value : Text) :
    List.Subperm (tag.withAttribute name value).values (tag.values ++ [.value value]) := by
  obtain ⟨l, perm, sub⟩ := Attribute.insert_subperm ⟨name, value⟩ tag.attributes
  have whole : tag.values ++ [.value value] =
      (tag.attributes ++ [(⟨name, value⟩ : Attribute)]).map fun a => .value a.value := by
    rw [List.map_append]
    rfl
  rw [whole]
  exact ⟨_, perm.map _, sub.map _⟩

/-- The data of the tokens so far, without the last text, which may still go on. -/
structure Gathered where
  closed : List Datum
  /-- The characters since the last mark. -/
  run : Text

namespace Gathered

/-- The data, if no more characters follow. -/
def whole (g : Gathered) : List Datum := g.closed ++ [.text g.run]

def add (g : Gathered) : Token → Gathered
  | .character c => ⟨g.closed, g.run ++ [c]⟩
  | .startTag _ attributes _ => ⟨g.whole ++ attributes.map fun a => .value a.value, []⟩
  | .endTag _ => ⟨g.whole, []⟩
  | .comment data => ⟨g.whole ++ [.comment data], []⟩
  | .doctype _ => ⟨g.whole, []⟩

def addAll (g : Gathered) (tokens : List Token) : Gathered := tokens.foldl add g

theorem addAll_append (g : Gathered) (tokens others : List Token) :
    g.addAll (tokens ++ others) = (g.addAll tokens).addAll others := List.foldl_append

theorem addAll_characters (g : Gathered) (s : Text) :
    g.addAll (Token.characters s) = ⟨g.closed, g.run ++ s⟩ := by
  induction s generalizing g with
  | nil => rw [List.append_nil]; rfl
  | cons c s ih =>
    have later := ih ⟨g.closed, g.run ++ [c]⟩
    rw [List.append_assoc] at later
    exact later

theorem add_token (g : Gathered) (tag : Tag) (selfClosing : Bool) :
    (g.add (tag.token selfClosing)).run = [] ∧
      List.Subperm (g.add (tag.token selfClosing)).closed (g.whole ++ tag.values) := by
  unfold Tag.token
  split
  · exact ⟨rfl, (List.sublist_append_left _ _).subperm⟩
  · exact ⟨rfl, .refl _⟩

end Gathered

/-! ## Between data and within them -/

/-- Everything known is spelled, and nothing is being read that counts. -/
structure Between (o : Origin) (known data : List Datum) (input : Text) : Prop where
  known : List.Subperm known data
  trail : Trail o input data

/-- After the trail of the data, the input has the text `v` and what is written of it as
`pending`. -/
structure Within (o : Origin) (gaps : Bool) (known data : List Datum)
    (start input v pending : Text) : Prop where
  known : List.Subperm known data
  trail : Trail o start data
  spelled : ∃ w, input = start ++ (w ++ pending) ∧ Spells gaps w v

section Follow

variable {gaps : Bool} {known data : List Datum} {start input v pending : Text}

theorem Between.skip (h : Between o known data input) (c : Char) :
    Between o known data (input ++ [c]) := ⟨h.known, h.trail.skip c⟩

theorem Between.within (h : Between o known data input) :
    Within o gaps known data input input [] [] :=
  ⟨h.known, h.trail, [], (List.append_nil _).symm, .nil⟩

theorem Between.of_subperm {known' : List Datum} (h : Between o known data input)
    (sub : List.Subperm known' known) : Between o known' data input := ⟨sub.trans h.known, h.trail⟩

/-- One more character is pending. -/
theorem Within.hold (h : Within o gaps known data start input v pending) (c : Char) :
    Within o gaps known data start (input ++ [c]) v (pending ++ [c]) := by
  obtain ⟨w, rfl, spelled⟩ := h.spelled
  exact ⟨h.known, h.trail, w, by simp only [List.append_assoc], spelled⟩

/-- The first part of what is pending is read as a text. -/
theorem Within.shift {p q : Text}
    (h : Within o gaps known data start input v (p ++ q)) {u : Text}
    (spelled : Spells gaps p u) : Within o gaps known data start input (v ++ u) q := by
  obtain ⟨w, rfl, before⟩ := h.spelled
  exact ⟨h.known, h.trail, w ++ p, by rw [List.append_assoc], before.append spelled⟩

/-- What is pending is read as a text. -/
theorem Within.settle (h : Within o gaps known data start input v pending) {u : Text}
    (spelled : Spells gaps pending u) : Within o gaps known data start input (v ++ u) [] := by
  rw [← List.append_nil pending] at h
  exact h.shift spelled

/-- What was being read does not count. -/
theorem Within.between (h : Within o gaps known data start input v pending) :
    Between o known data input := by
  obtain ⟨w, rfl, _⟩ := h.spelled
  exact ⟨h.known, h.trail.skips _⟩

/-- The datum ends before the first pending character, which is no digit. -/
theorem Within.close {d : Datum} {c : Char} {rest : Text}
    (h : Within o d.gaps known data start input d.body (c :: rest))
    (ends : Text.isDigit c = false) :
    Between o (known ++ [d]) (data ++ [d]) input := by
  obtain ⟨w, rfl, spelled⟩ := h.spelled
  refine ⟨(List.subperm_append_right [d]).mpr h.known, ?_⟩
  have whole := (h.trail.take spelled ends).skips rest
  simp only [List.append_assoc, List.singleton_append] at whole
  exact whole

end Follow

end HtmlTemplate
