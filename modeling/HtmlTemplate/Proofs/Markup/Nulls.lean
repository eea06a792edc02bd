import HtmlTemplate.Proofs.Markup.Flow
import HtmlTemplate.Proofs.Markup.Named

/-!
# Where no nulls are told of

Outside ordinary text the tokenizer replaces nulls, and no character reference stands for one. So
there are no nulls in the text of elements whose content is read with references
(`Reading.take_nullFree`), nor in the values of a tag, whatever state it is read in
(`State.step_inTag`).
-/

namespace HtmlTemplate

open State (null)

/-! ## References -/

theorem Reference.numbered_ne_null (n : Nat) : numbered n ≠ null := by
  have zero : ∀ m, Nat.isValidChar m → m ≠ 0 → Char.ofNat m ≠ null := by
    intro m valid positive same
    have codes := congrArg Char.toNat same
    rw [Char.ofNat, dif_pos valid] at codes
    exact positive codes
  unfold numbered
  split
  · decide
  · rename_i regular
    simp only [not_or, not_and, not_lt, not_le] at regular
    cases found : westernCodes.lookup n with
    | none =>
      refine zero n ?_ regular.1
      show n < 0xD800 ∨ 0xDFFF < n ∧ n < 0x110000
      omega
    | some code =>
      obtain ⟨before, after, same, _⟩ := List.lookup_eq_some_iff.mp found
      have member : (n, code) ∈ westernCodes := same ▸ List.mem_append_right _ List.mem_cons_self
      have codes : ∀ entry ∈ westernCodes, Char.ofNat entry.2 ≠ null := by decide
      exact codes _ member

theorem NamedReference.null_not_mem_startingWith (c : Char) :
    (startingWith c).all (fun e => (e.2.map Char.ofNat).all (· != null)) = true := by
  unfold startingWith
  split <;> decide +kernel

theorem NamedReference.null_not_mem_of_lookup? {name text : Text} (h : lookup? name = some text) :
    null ∉ text := by
  cases name with
  | nil => cases h
  | cons c rest =>
    obtain ⟨codes, found, rfl⟩ := Option.map_eq_some_iff.mp h
    obtain ⟨before, after, same, _⟩ := List.lookup_eq_some_iff.mp found
    have member : (String.ofList (c :: rest), codes) ∈ startingWith c :=
      same ▸ List.mem_append_right _ List.mem_cons_self
    have all := List.all_eq_true.mp (null_not_mem_startingWith c) _ member
    intro inside
    exact absurd (List.all_eq_true.mp all null inside) (by decide)

/-- What is written without nulls is read without nulls. -/
theorem Spells.null_not_mem {gaps : Bool} {w v : Text} (h : Spells gaps w v) (none : null ∉ w) :
    null ∉ v := by
  induction h with
  | nil => exact List.not_mem_nil
  | @cons r t w v piece _ ih =>
    rw [List.mem_append, not_or] at none ⊢
    refine ⟨?_, ih none.2⟩
    cases piece with
    | plain c => exact none.1
    | null => exact absurd List.mem_cons_self none.1
    | numeral _ _ =>
      rw [List.mem_singleton]
      exact (Reference.numbered_ne_null _).symm
    | named found => exact NamedReference.null_not_mem_of_lookup? found
    | gap _ => exact List.not_mem_nil

/-- No reference goes on at a null. -/
theorem Reference.step_of_null (ref : Reference) (inAttribute : Bool) :
    ∃ text, ref.step inAttribute null = .before text := by
  have letter : Text.isAlphanumeric null = false := by decide
  have hash : null ≠ '#' := by decide
  have semicolon : null ≠ ';' := by decide
  cases ref with
  | named run => simp [step, letter, hash, semicolon]
  | _ => exact ⟨_, rfl⟩

/-- Nothing that has been written of the reference that is being read is a null. -/
def NullFree (position : Option Reference) : Prop :=
  ∃ written, State.Pending position written ∧ null ∉ written

theorem nullFree_none : NullFree none := ⟨[], .literal, List.not_mem_nil⟩

theorem State.kept_ne_null (c : Char) : kept c ≠ null := by
  unfold kept
  split
  · decide
  · assumption

namespace Reading

variable {position : Option Reference} (inAttribute : Bool)

theorem first_nullFree (c : Char) : null ∉ ((decoded inAttribute).first c).1 ∧
    NullFree ((decoded inAttribute).first c).2 := by
  simp only [first]
  split
  · exact ⟨List.not_mem_nil, ['&'], .reference (.named []), by decide⟩
  · exact ⟨fun member => State.kept_ne_null c (List.mem_singleton.mp member).symm, nullFree_none⟩

/-- Text with references has no nulls in it. -/
theorem take_nullFree (h : NullFree position) (c : Char) :
    null ∉ ((decoded inAttribute).take position c).1 ∧
      NullFree ((decoded inAttribute).take position c).2 := by
  obtain ⟨written, pending, none⟩ := h
  cases pending with
  | literal => exact first_nullFree inAttribute c
  | @reference ref r known =>
    have outcome : (ref.step inAttribute c).Spelled false r c := known.step inAttribute c
    have more : (∀ text, ref.step inAttribute c ≠ .before text) → null ∉ '&' :: (r ++ [c]) := by
      intro goes member
      rw [← List.cons_append, List.mem_append, List.mem_singleton] at member
      rcases member with before | rfl
      · exact none before
      · obtain ⟨text, ends⟩ := ref.step_of_null inAttribute
        exact goes text ends
    cases result : ref.step inAttribute c with
    | more ref' =>
      rw [take_more (r := decoded inAttribute) result]
      rw [result] at outcome more
      exact ⟨List.not_mem_nil, _, .reference outcome, more fun _ => nofun⟩
    | done text =>
      rw [take_done (r := decoded inAttribute) result]
      rw [result] at outcome more
      exact ⟨Spells.null_not_mem outcome (more fun _ => nofun), nullFree_none⟩
    | before text =>
      rw [take_before (r := decoded inAttribute) result]
      rw [result] at outcome
      obtain ⟨plain, next⟩ := first_nullFree inAttribute c
      exact ⟨fun member =>
        (List.mem_append.mp member).elim (Spells.null_not_mem outcome none) plain, next⟩

theorem flush_nullFree (h : NullFree position) : null ∉ (decoded inAttribute).flush position := by
  obtain ⟨written, pending, none⟩ := h
  cases pending with
  | literal => exact List.not_mem_nil
  | reference known =>
    have spelled : Spells false _ _ := known.finish inAttribute
    exact spelled.null_not_mem none

end Reading

/-! ## Tags -/

/-- The values of a tag have no nulls in them. -/
def Tag.NullFree (tag : Tag) : Prop := ∀ a ∈ tag.attributes, null ∉ a.value

theorem Tag.NullFree.withAttribute {tag : Tag} (h : tag.NullFree) (name : Text) {value : Text}
    (none : null ∉ value) : (tag.withAttribute name value).NullFree := by
  intro a member
  rcases Attribute.mem_of_mem_insert member with rfl | known
  · exact none
  · exact h a known

namespace State

variable {state : State} {tag tag' : Tag}

theorem Extends.nullFree (h : Extends tag tag') (free : tag.NullFree) : tag'.NullFree := by
  intro a member
  rcases h.attributes with same | ⟨name, same⟩
  · exact free a (same ▸ member)
  · rw [same] at member
    rcases Attribute.mem_of_mem_insert member with rfl | known
    · exact List.not_mem_nil
    · exact free a known

/-- In a tag whose values have no nulls in them. -/
inductive InTag : State → Tag → Prop
  | outside {state : State} {tag : Tag} : Outside state tag → tag.NullFree → InTag state tag
  | value {tag : Tag} {v : Text} {position : Option Reference} (name : Text) (quote : Quote) :
    tag.NullFree → null ∉ v → HtmlTemplate.NullFree position →
      InTag (inValue tag name quote v position) tag

/-- What a character of such a tag does: the tag goes on or ends. -/
inductive InTagMove (state : State) (tag : Tag) (c : Char) : State × List Token → Prop
  | on {next : State} {tag' : Tag} : InTag next tag' → tag'.closing = tag.closing →
      (next.InTagName → state.InTagName) → (state.InTagName ∨ tag'.name = tag.name) →
      InTagMove state tag c (next, [])
  | closes {tag' : Tag} (closesItself : Bool) : tag'.NullFree → tag'.closing = tag.closing →
      tag'.name = tag.name → InTagMove state tag c (closeTag tag' closesItself)

theorem ValueMove.inTag {name v : Text} {position : Option Reference} {c : Char}
    {next : State × List Token} (h : ValueMove tag name v position c next) (free : tag.NullFree)
    (none : null ∉ v) (pending : HtmlTemplate.NullFree position) : InTagMove state tag c next := by
  obtain ⟨plain, later⟩ := Reading.take_nullFree true pending c
  have all : null ∉ v ++ ((Reading.decoded true).take position c).1 := fun member =>
    (List.mem_append.mp member).elim none plain
  cases h with
  | on quote =>
    exact .on (.value name quote free all later) rfl
      (fun named => absurd named (not_inTagName_inValue _ _ _ _ _)) (.inr rfl)
  | ends split outside _ notName =>
    rw [split] at all
    exact .on (.outside outside (free.withAttribute name fun member =>
      all (List.mem_append_left _ member))) rfl (fun named => absurd named notName) (.inr rfl)
  | closes _ split =>
    rw [split] at all
    exact .closes false (free.withAttribute name fun member => all (List.mem_append_left _ member))
      rfl rfl

theorem step_inTag (h : InTag state tag) (c : Char) : InTagMove state tag c (state.step c) := by
  cases h with
  | outside outside free =>
    have move := step_outside outside c
    generalize state.step c = next at move
    cases move with
    | on outside same _ named keeps =>
      exact .on (.outside outside (same.nullFree free)) same.closing named keeps
    | closes closesItself _ same name =>
      exact .closes closesItself (same.nullFree free) same.closing name
    | quoted name quote _ _ =>
      have inTag : InTag (inValue tag name quote [] none) tag :=
        .value name quote free List.not_mem_nil nullFree_none
      exact .on inTag rfl False.elim (.inr rfl)
    | unquoted name _ =>
      exact (valueMove_stepValue tag name .none [] c).inTag free List.not_mem_nil nullFree_none
  | value name quote free none pending =>
    exact (step_inValue tag name quote _ _ c).inTag free none pending

/-- The tag that is being read is named well. -/
theorem InTag.named (h : InTag state tag) (named : state.Named) : tag.Named := by
  cases h with
  | outside outside _ =>
    cases outside with
    | tagName => exact named
    | beforeName => exact named
    | attributeName => exact named.1
    | afterName => exact named.1
    | beforeValue => exact named.1
    | afterValue => exact named
    | selfClosing => exact named
  | @value _ _ position name quote _ _ _ =>
    cases position with
    | none => exact named.1
    | some ref => exact named.1

/-- A tag that is cut off is dropped. -/
theorem InTag.finish (h : InTag state tag) : state.finish = [] := by
  cases h with
  | outside outside _ => cases outside <;> rfl
  | value name quote _ _ _ => exact finish_inValue _ _ _ _ _

end State

end HtmlTemplate
