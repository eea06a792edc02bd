import HtmlTemplate.Proofs.Value.Told
import Mathlib.Data.List.Perm.Basic

/-!
# What a value sets off

Producers of deferred values are called, components render themselves, and objects are transformed.
What of this a value sets off is said here without regard to when it happens: which producers stand
in it (`Value.producers`), and which effects all in all a value in content has (`Value.effects`),
where each producer, each component and each object on the way stands once.

Effects happen at two times. When a value is resolved, its producers are called, and in content what
it is made of is rendered and transformed, but arrays with nothing to wait for are left as they are;
what they hold is rendered and transformed when the value is written, or rendered when it is read as
text. Neither misses an effect or repeats one of the other (`Value.Calm.told_effects`).
-/

namespace HtmlTemplate

variable {options : Options}

/-- Whether the note is of a producer, a component or a transformer that was called. -/
def Note.isEffect : Note → Bool
  | called _ => true
  | rendered _ => true
  | transformed _ => true
  | _ => false

namespace Value

/-! ## Producers -/

mutual

/-- The producers of the deferred values that are reached through arrays, futures and placeholders,
by their names. -/
def producers : Value → List (Option Text)
  | .resolves _ _ value => producers value
  | .placeholder _ value => producers value
  | .deferred _ name future => name :: producers future
  | .array items => producersOf items
  | _ => []

/-- The producers in some values. -/
def producersOf : List Value → List (Option Text)
  | [] => []
  | v :: rest => producers v ++ producersOf rest

end

mutual

/-- The value with what they return in place of the producers. -/
def supplied : Value → Value
  | .resolves delay name value => .resolves delay name (supplied value)
  | .placeholder kind value => .placeholder kind (supplied value)
  | .deferred kind _ future => .placeholder kind (supplied future)
  | .array items => .array (suppliedAll items)
  | v => v

/-- The values with what they return in place of the producers. -/
def suppliedAll : List Value → List Value
  | [] => []
  | v :: rest => supplied v :: suppliedAll rest

end

theorem producersOf_eq_flatMap (items : List Value) :
    producersOf items = items.flatMap producers := by
  induction items with
  | nil => rfl
  | cons v rest ih => rw [producersOf, List.flatMap_cons, ih]

theorem suppliedAll_eq_map (items : List Value) : suppliedAll items = items.map supplied := by
  induction items with
  | nil => rfl
  | cons v rest ih => rw [suppliedAll, List.map_cons, ih]

theorem supplied_array (items : List Value) :
    supplied (array items) = array (items.map supplied) := by
  rw [supplied, suppliedAll_eq_map]

theorem producers_supplied (v : Value) : v.supplied.producers = [] := by
  induction v using elementInduction with
  | array items ih =>
    rw [supplied_array, producers, producersOf_eq_flatMap, List.flatMap_map]
    exact List.flatMap_eq_nil_iff.mpr ih
  | resolves delay name value ih => exact ih
  | placeholder kind value ih => exact ih
  | deferred kind name future ih => exact ih
  | _ => rfl

theorem isAsync_supplied (v : Value) : isAsync v.supplied = isAsync v := by
  induction v using elementInduction with
  | array items ih =>
    rw [supplied_array, isAsync, isAsync]
    exact anyAsync_map ih
  | _ => rfl

theorem anyAsync_supplied (items : List Value) : anyAsync (items.map supplied) = anyAsync items :=
  anyAsync_map fun v _ => isAsync_supplied v

/-- A value that has not to be waited for has no producers. -/
theorem producers_of_not_async {v : Value} (silent : isAsync v = false) : v.producers = [] := by
  induction v using elementInduction with
  | array items ih =>
    rw [producers, producersOf_eq_flatMap]
    exact List.flatMap_eq_nil_iff.mpr fun v member =>
      ih v member (anyAsync_eq_false.mp silent v member)
  | resolves delay name value => cases silent
  | placeholder kind value => cases silent
  | deferred kind name future => cases silent
  | _ => rfl

theorem supplied_of_not_async {v : Value} (silent : isAsync v = false) : v.supplied = v := by
  induction v using elementInduction with
  | array items ih =>
    rw [supplied_array]
    exact congrArg array ((List.map_congr_left fun v member =>
      ih v member (anyAsync_eq_false.mp silent v member)).trans (List.map_id items))
  | resolves delay name value => cases silent
  | placeholder kind value => cases silent
  | deferred kind name future => cases silent
  | _ => rfl

/-- Producers make no difference to what a value resolves to. -/
theorem resolved_supplied (options : Options) (mode : Mode) (v : Value) :
    v.supplied.resolved options mode = v.resolved options mode := by
  induction v using elementInduction with
  | array items ih =>
    cases waits : anyAsync items with
    | false => rw [supplied_of_not_async (v := array items) waits]
    | true =>
      rw [supplied_array, resolved_array, resolved_array, anyAsync_supplied, waits, List.map_map]
      exact congrArg array (List.map_congr_left ih)
  | resolves delay name value ih => exact ih
  | placeholder kind value ih => exact congrArg (fun v => (Task.convertValue kind v).result) ih
  | deferred kind name future ih => exact congrArg (fun v => (Task.convertValue kind v).result) ih
  | _ => rfl

/-- No producer is called for what a placeholder makes of its value. -/
theorem told_converted_supplied {mode : Mode} {kind : PlaceholderKind} {v : Value}
    (h : (v.told options mode).Perm (v.producers.map .called ++ v.supplied.told options mode)) :
    (v.told options mode ++ (Task.convertValue kind (v.resolved options mode)).notes).Perm
      (v.producers.map .called ++ (v.supplied.told options mode ++
        (Task.convertValue kind (v.supplied.resolved options mode)).notes)) := by
  rw [resolved_supplied, ← List.append_assoc]
  exact h.append_right _

/-- Each producer is called once while a value is resolved, and makes no difference otherwise. -/
theorem told_supplied (mode : Mode) (v : Value) :
    (v.told options mode).Perm (v.producers.map .called ++ v.supplied.told options mode) := by
  induction v using elementInduction with
  | array items ih =>
    cases waits : anyAsync items with
    | false =>
      rw [producers_of_not_async (v := array items) waits,
        supplied_of_not_async (v := array items) waits]
      exact .refl _
    | true =>
      rw [supplied_array, told_array, told_array, anyAsync_supplied, if_pos waits, if_pos waits,
        producers, producersOf_eq_flatMap, List.map_flatMap, List.flatMap_map]
      exact (List.Perm.flatMap_left _ ih).trans (List.flatMap_append_perm _ _ _).symm
  | resolves delay name value ih => exact (ih.cons _).trans List.perm_middle.symm
  | placeholder kind value ih => exact told_converted_supplied ih
  | deferred kind name future ih => exact (told_converted_supplied ih).cons _
  | _ => exact .refl _

/-! ## Effects in content -/

mutual

/-- The components that are reached through arrays and components, by their names. -/
def renders : Value → List (Option Text)
  | .array items => rendersOf items
  | .component name body => name :: renders body
  | _ => []

/-- The components in some values. -/
def rendersOf : List Value → List (Option Text)
  | [] => []
  | v :: rest => renders v ++ rendersOf rest

end

/-- Whether what stands in a placeholder is taken as text or markup. -/
def readIn (asText : Bool) : PlaceholderKind → Bool
  | .any => asText
  | _ => true

mutual

/-- The effects of a value in content, given those of an object. What is taken as text has its
components rendered, but arrays with nothing to wait for keep their objects. -/
def effectsWith (object : Bool → List (Text × Value) → List Note)
    (asText : Bool) : Value → List Note
  | .resolves _ _ value => effectsWith object asText value
  | .placeholder kind value => effectsWith object (readIn asText kind) value
  | .deferred kind name future => .called name :: effectsWith object (readIn asText kind) future
  | .array items =>
    if asText && !anyAsync items then (rendersOf items).map .rendered
    else effectsAllWith object asText items
  | .component name body => .rendered name :: effectsWith object asText body
  | .object entries => object asText entries
  | _ => []

/-- The effects of values in content. -/
def effectsAllWith (object : Bool → List (Text × Value) → List Note) (asText : Bool) :
    List Value → List Note
  | [] => []
  | v :: rest => effectsWith object asText v ++ effectsAllWith object asText rest

end

/-- The effects of an object in content that may be replaced `expansions` times in a row: its
transformer is applied, and what that makes has its own effects. -/
def effectsObject (options : Options) : Nat → Bool → List (Text × Value) → List Note
  | 0, _, _ => []
  | expansions + 1, asText, entries =>
    match options.transform? entries with
    | some transformed =>
      transformed.notes ++ effectsWith (effectsObject options expansions) asText transformed.result
    | none => []

/-- The effects of a value in content, each once. -/
def effects (options : Options) (value : Value) : List Note :=
  effectsWith (effectsObject options options.expansions) false value

theorem rendersOf_eq_flatMap (items : List Value) : rendersOf items = items.flatMap renders := by
  induction items with
  | nil => rfl
  | cons v rest ih => rw [rendersOf, List.flatMap_cons, ih]

theorem effectsAllWith_eq_flatMap (object : Bool → List (Text × Value) → List Note) (asText : Bool)
    (items : List Value) :
    effectsAllWith object asText items = items.flatMap (effectsWith object asText) := by
  induction items with
  | nil => rfl
  | cons v rest ih => rw [effectsAllWith, List.flatMap_cons, ih]

/-- The effects of an array are those of its leaves. -/
theorem effectsWith_leaves (object : Bool → List (Text × Value) → List Note) (v : Value) :
    (leavesOf v).flatMap (effectsWith object false) = effectsWith object false v :=
  flatMap_leavesOf (fun items => effectsAllWith_eq_flatMap object false items) v

/-! ### Effects of writing -/

theorem texts_notes (items : List Value) :
    (texts items).notes = items.flatMap fun v => (text v).notes := by
  induction items with
  | nil => rfl
  | cons v rest ih =>
    rw [List.flatMap_cons, ← ih]
    simp [texts]

theorem markups_notes (items : List Value) :
    (markups items).notes = items.flatMap fun v => (markup v).notes := by
  induction items with
  | nil => rfl
  | cons v rest ih =>
    rw [List.flatMap_cons, ← ih]
    simp [markups]

/-- To be read as text, a value has its components rendered. -/
theorem text_notes (v : Value) : (text v).notes = (renders v).map .rendered := by
  induction v using elementInduction with
  | array items ih =>
    rw [text, renders, rendersOf_eq_flatMap, List.map_flatMap, ← List.flatMap_congr ih,
      ← texts_notes]
    exact List.append_nil _
  | component name body ih => exact congrArg (Note.rendered name :: ·) ih
  | bool b => cases b <;> rfl
  | _ => rfl

theorem markup_notes (v : Value) : (markup v).notes = (text v).notes := by
  induction v using elementInduction with
  | array items ih =>
    rw [markup, markups_notes, List.flatMap_congr ih, ← texts_notes]
    exact (List.append_nil _).symm
  | _ => rfl

/-- What is told when a value is read as text, or written in content. -/
def spoken (options : Options) (expansions : Nat) (asText : Bool) (v : Value) : List Note :=
  if asText then (text v).notes
  else (Content.writeWith (Content.writeObject options expansions) v).notes

theorem spoken_array (n : Nat) (asText : Bool) (items : List Value) :
    spoken options n asText (array items) = items.flatMap (spoken options n asText) := by
  cases asText with
  | false => exact writeAllWith_notes _ items
  | true =>
    have read : (text (array items)).notes = (texts items).notes := List.append_nil _
    exact read.trans (texts_notes items)

/-- What a placeholder makes of a value is read as text when it is made, or when it stands where
that is done. -/
theorem spoken_convertValue (n : Nat) (asText : Bool) (kind : PlaceholderKind) (v : Value) :
    (Task.convertValue kind v).notes ++ spoken options n asText (Task.convertValue kind v).result =
      spoken options n (readIn asText kind) v := by
  cases kind with
  | any => rfl
  | text => cases asText <;> exact List.append_nil _
  | html => cases asText <;> exact (List.append_nil _).trans (markup_notes v)

/-- The effects of a value that can be written at once come about when it is written. -/
theorem Still.write_effects {n m k : Nat} {v : Value} (still : Still options n v) (enough : n ≤ m)
    (enough' : n ≤ k) :
    (Content.writeWith (Content.writeObject options m) v).notes.filter Note.isEffect =
      (effectsWith (effectsObject options k) false v).filter Note.isEffect := by
  induction still generalizing m k with
  | array _ ih =>
    rw [Content.writeWith, writeAllWith_notes, effectsWith, Bool.false_and,
      if_neg Bool.false_ne_true,
      effectsAllWith_eq_flatMap, List.filter_flatMap, List.filter_flatMap]
    exact List.flatMap_congr fun v member => ih v member enough enough'
  | component _ ih => exact congrArg (Note.rendered _ :: ·) (ih enough enough')
  | kept none =>
    rw [Content.writeWith, effectsWith]
    cases m <;> cases k <;>
      simp [Content.writeObject, effectsObject, none, Noted.note, Note.isEffect]
  | transformed found _ ih =>
    obtain ⟨m, rfl⟩ := Nat.exists_eq_add_of_lt enough
    obtain ⟨k, rfl⟩ := Nat.exists_eq_add_of_lt enough'
    simp only [Content.writeWith, Content.writeObject, effectsWith, effectsObject, found,
      Noted.bind_notes, List.filter_append, ih (Nat.le_add_right _ m) (Nat.le_add_right _ k)]
  | @bool _ b => cases b <;> rfl
  | _ => rfl

/-- Rendering components and replacing objects before writing neither adds nor omits an effect. -/
theorem Still.told_effects {n m k : Nat} {v : Value} (still : Still options n v) (enough : n ≤ m)
    (enough' : n ≤ k) (asText : Bool) :
    (told options ⟨true, n⟩ v ++ spoken options m asText (resolved options ⟨true, n⟩ v)).filter
        Note.isEffect =
      (effectsWith (effectsObject options k) asText v).filter Note.isEffect := by
  induction still generalizing m k with
  | @array n items each _ =>
    -- Such an array is left alone until it is written.
    have silent : anyAsync items = false :=
      anyAsync_eq_false.mpr fun v member => (each v member).isAsync
    rw [told_array, resolved_array, silent, if_neg Bool.false_ne_true, if_neg Bool.false_ne_true]
    cases asText with
    | false => exact (Still.array each).write_effects enough enough'
    | true =>
      rw [effectsWith, silent, Bool.not_false, Bool.and_true, if_pos rfl]
      exact congrArg (List.filter Note.isEffect) (text_notes (.array items))
  | component _ ih => exact congrArg (Note.rendered _ :: ·) (ih enough enough')
  | @kept n entries none =>
    have quiet : (spoken options m asText (object entries)).filter Note.isEffect = [] := by
      cases asText with
      | true => rfl
      | false =>
        cases m <;>
          simp [spoken, Content.writeWith, Content.writeObject, none, Noted.note, Note.isEffect]
    have nothing : effectsWith (effectsObject options k) asText (object entries) = [] := by
      cases k <;> simp [effectsWith, effectsObject, none]
    rw [told_unmatched none, nothing]
    rcases @resolved_kept _ ⟨true, n⟩ rfl _ none with gone | kept
    · rw [gone]
      cases asText <;> rfl
    · rw [kept]
      exact quiet
  | @transformed n entries transformed found _ ih =>
    obtain ⟨k, rfl⟩ := Nat.exists_eq_add_of_lt enough'
    rw [told_transformed found, resolved_transformed found, List.append_assoc, List.filter_append,
      ih (Nat.le_of_succ_le enough) (Nat.le_add_right n k)]
    simp only [effectsWith, effectsObject, found, List.filter_append]
  | @bool _ b => cases asText <;> cases b <;> rfl
  | _ => cases asText <;> rfl

/-! ### Effects in general -/

mutual

/-- The values that need not be waited for, reached through arrays, futures and placeholders. -/
def present : Value → List Value
  | .resolves _ _ value => present value
  | .placeholder _ value => present value
  | .deferred _ _ future => present future
  | .array items => presentOf items
  | .rejects .. => []
  | .never => []
  | v => [v]

/-- The values that need not be waited for in some values. -/
def presentOf : List Value → List Value
  | [] => []
  | v :: rest => present v ++ presentOf rest

end

/-- What the components in the value render and what replaces its objects, at most `expansions`
times in a row, need not be waited for. -/
def Calm (options : Options) (expansions : Nat) (v : Value) : Prop :=
  ∀ u ∈ v.present, u.Still options expansions

theorem presentOf_eq_flatMap (items : List Value) : presentOf items = items.flatMap present := by
  induction items with
  | nil => rfl
  | cons v rest ih => rw [presentOf, List.flatMap_cons, ih]

theorem Calm.elements {n : Nat} {items : List Value} (calm : Calm options n (array items)) :
    ∀ v ∈ items, Calm options n v := by
  intro v member u inside
  refine calm u ?_
  rw [present, presentOf_eq_flatMap]
  exact List.mem_flatMap.mpr ⟨v, member, inside⟩

theorem Calm.still {n : Nat} {v : Value} (calm : Calm options n v) (silent : isAsync v = false) :
    Still options n v := by
  induction v using elementInduction with
  | array items ih =>
    exact .array fun v member =>
      ih v member (calm.elements v member) (anyAsync_eq_false.mp silent v member)
  | resolves delay name value => cases silent
  | rejects delay name reason => cases silent
  | never => cases silent
  | placeholder kind value => cases silent
  | deferred kind name future => cases silent
  | _ => exact calm _ (List.mem_singleton.mpr rfl)

/-- The effects of a value are told of when it is resolved, and of what it resolves to when that is
read as text or written. -/
theorem Calm.told_effects {n m k : Nat} {v : Value} (calm : Calm options n v) (enough : n ≤ m)
    (enough' : n ≤ k) (asText : Bool) :
    ((told options ⟨true, n⟩ v ++ spoken options m asText (resolved options ⟨true, n⟩ v)).filter
        Note.isEffect).Perm
      ((effectsWith (effectsObject options k) asText v).filter Note.isEffect) := by
  induction v using elementInduction generalizing asText with
  | array items ih =>
    cases waits : anyAsync items with
    | false => exact .of_eq ((calm.still waits).told_effects enough enough' asText)
    | true =>
      have each := List.Perm.flatMap_left items fun v member =>
        ih v member (calm.elements v member) asText
      rw [told_array, resolved_array, waits, if_pos rfl, if_pos rfl, spoken_array, List.flatMap_map,
        effectsWith, waits, Bool.not_true, Bool.and_false, if_neg Bool.false_ne_true,
        effectsAllWith_eq_flatMap, List.filter_flatMap]
      rw [← List.filter_flatMap] at each
      exact ((List.flatMap_append_perm items _ _).filter _).trans each
  | resolves delay name value ih => exact ih calm asText
  | placeholder kind value ih =>
    have read := ih calm (readIn asText kind)
    rw [← spoken_convertValue, ← List.append_assoc] at read
    exact read
  | deferred kind name future ih =>
    have read := ih calm (readIn asText kind)
    rw [← spoken_convertValue, ← List.append_assoc] at read
    exact read.cons _
  | rejects delay name reason => cases asText <;> exact .refl _
  | never => cases asText <;> exact .refl _
  | _ => exact .of_eq ((calm.still rfl).told_effects enough enough' asText)

end Value

end HtmlTemplate
