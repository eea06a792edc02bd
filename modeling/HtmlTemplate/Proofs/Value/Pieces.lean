import HtmlTemplate.Proofs.Value.Overlooked

/-!
# What markup is made of

The markup of a placeholder is made of the texts of pieces, with nothing between them. They should
be the leaves of its value, which are reached through arrays, futures, placeholders, components and
transformed objects. But resolving goes into an array only if one of its elements has to be waited
for. The elements of any other array are pieces as they are; a component there has the text that it
has anywhere else, with commas between the elements of its arrays, and an object none. So the pieces
are the leaves exactly if none of them stands for something else (`Arrives.pieces_eq_leaves`).
-/

namespace HtmlTemplate

variable {options : Options}

namespace Value

/-- The text of a value, without its notes. -/
def rawText (v : Value) : Text := v.text.result

/-! ## Markup -/

theorem markup_array (items : List Value) :
    (array items).markup.result = items.flatMap fun v => v.markup.result := by
  rw [markup]
  induction items with
  | nil => rfl
  | cons v rest ih =>
    rw [List.flatMap_cons, ← ih]
    rfl

/-- Markup goes through arrays, and takes everything else by its text. -/
theorem markup_eq_leavesOf (v : Value) : v.markup.result = (leavesOf v).flatMap rawText := by
  induction v using elementInduction with
  | array items ih =>
    rw [markup_array, leavesOf, leaves_eq_flatMap, List.flatMap_assoc]
    exact List.flatMap_congr ih
  | _ => exact (List.append_nil _).symm

/-! ## Gathering -/

mutual

/-- The values that are reached through arrays, as far as they are opened, and through everything
that is resolved in content; the elements of other arrays are taken as they are. A text is taken as
a whole. -/
def gatherWith (opens : List Value → Bool) (settle : Value → Value)
    (object : List (Text × Value) → List Value) : Value → List Value
  | .array items => if opens items then gatherAllWith opens settle object items else leaves items
  | .component _ body => gatherWith opens settle object body
  | .object entries => object entries
  | .resolves _ _ value => gatherWith opens settle object value
  | .placeholder .text value => [.str (rawText (settle value))]
  | .placeholder _ value => gatherWith opens settle object value
  | .deferred .text _ future => [.str (rawText (settle future))]
  | .deferred _ _ future => gatherWith opens settle object future
  | v => [v]

/-- The values that are reached from values, one after the other. -/
def gatherAllWith (opens : List Value → Bool) (settle : Value → Value)
    (object : List (Text × Value) → List Value) : List Value → List Value
  | [] => []
  | v :: rest => gatherWith opens settle object v ++ gatherAllWith opens settle object rest

end

/-- The values that are reached from an object that may be replaced `expansions` times. -/
def gatherObject (opens : List Value → Bool) (options : Options) :
    Nat → List (Text × Value) → List Value
  | 0, entries => [.object entries]
  | expansions + 1, entries =>
    match options.transform? entries with
    | some transformed =>
      gatherWith opens (resolved options ⟨true, expansions⟩) (gatherObject opens options expansions)
        transformed.result
    | none => [.object entries]

/-- The values that are reached from a value in content where objects may be replaced `n` times. -/
def gathered (opens : List Value → Bool) (options : Options) (n : Nat) (v : Value) : List Value :=
  gatherWith opens (resolved options ⟨true, n⟩) (gatherObject opens options n) v

/-- The pieces of a value in markup: only arrays are opened in which an element has to be waited
for. -/
def pieces (options : Options) (n : Nat) (v : Value) : List Value := gathered anyAsync options n v

/-- The leaves of a value in markup, through all arrays. -/
def markupLeaves (options : Options) (n : Nat) (v : Value) : List Value :=
  gathered (fun _ => true) options n v

section Gathered

variable {opens : List Value → Bool} {n : Nat}

theorem gathered_array (items : List Value) :
    gathered opens options n (array items) =
      if opens items then items.flatMap (gathered opens options n) else leaves items := by
  have each : gatherAllWith opens (resolved options ⟨true, n⟩)
      (gatherObject opens options n) items = items.flatMap (gathered opens options n) := by
    induction items with
    | nil => rfl
    | cons v rest ih =>
      rw [gatherAllWith, List.flatMap_cons, ih]
      rfl
  rw [gathered, gatherWith, each]

theorem gathered_transformed {entries : List (Text × Value)} {transformed : Noted Value}
    (found : options.transform? entries = some transformed) :
    gathered opens options (n + 1) (object entries) =
      gathered opens options n transformed.result := by
  rw [gathered, gatherWith, gatherObject, found]
  rfl

theorem gathered_kept {entries : List (Text × Value)} (none : options.transform? entries = none) :
    gathered opens options n (object entries) = [object entries] := by
  cases n with
  | zero => rfl
  | succ n =>
    rw [gathered, gatherWith, gatherObject, none]

/-- What is gathered from a placeholder: a text is one piece, anything else is looked into. -/
theorem gathered_placeholder (kind : PlaceholderKind) (value : Value) :
    gathered opens options n (placeholder kind value) =
      if kind = .text then [.str (rawText (resolved options ⟨true, n⟩ value))]
      else gathered opens options n value := by
  cases kind <;> rfl

theorem gathered_deferred (kind : PlaceholderKind) (name : Option Text) (future : Value) :
    gathered opens options n (deferred kind name future) =
      gathered opens options n (placeholder kind future) := by
  cases kind <;> rfl

end Gathered

/-! ## Pieces -/

section Pieces

variable {n : Nat}

/-- The markup of what a value resolves to, if this is so for objects. -/
theorem markup_resolved_with
    (object : ∀ entries, (resolved options ⟨true, n⟩ (.object entries)).markup.result =
      (pieces options n (.object entries)).flatMap rawText) (v : Value) :
    (resolved options ⟨true, n⟩ v).markup.result = (pieces options n v).flatMap rawText := by
  have converted : ∀ (kind : PlaceholderKind) (value : Value),
      (resolved options ⟨true, n⟩ value).markup.result = (pieces options n value).flatMap rawText →
      (Task.convertValue kind (resolved options ⟨true, n⟩ value)).result.markup.result =
        (pieces options n (placeholder kind value)).flatMap rawText := by
    intro kind value same
    rw [pieces, gathered_placeholder]
    cases kind with
    | text => exact (List.append_nil _).symm
    | html => exact same
    | any => exact same
  induction v using elementInduction with
  | array items ih =>
    rw [resolved_array, pieces, gathered_array]
    split
    · rw [markup_array, List.flatMap_map, List.flatMap_assoc]
      exact List.flatMap_congr ih
    · exact markup_eq_leavesOf (array items)
  | object entries => exact object entries
  | component name body ih =>
    rw [resolved_component rfl]
    exact ih
  | resolves delay name value ih => exact ih
  | placeholder kind value ih => exact converted kind value ih
  | deferred kind name future ih =>
    rw [pieces, gathered_deferred]
    exact converted kind future ih
  | _ => exact (List.append_nil _).symm

/-- The markup of what a value resolves to in content is made of the texts of its pieces. -/
theorem markup_resolved (n : Nat) (v : Value) :
    (resolved options ⟨true, n⟩ v).markup.result = (pieces options n v).flatMap rawText := by
  induction n generalizing v with
  | zero => exact markup_resolved_with (fun entries => rfl) v
  | succ n ih =>
    refine markup_resolved_with (fun entries => ?_) v
    cases found : options.transform? entries with
    | some transformed =>
      rw [resolved_transformed found, ih, pieces, pieces, gathered_transformed found]
    | none =>
      rw [pieces, gathered_kept found]
      rcases @resolved_kept options ⟨true, n + 1⟩ rfl entries found with gone | kept
      · rw [gone]
        rfl
      · rw [kept]
        rfl

/-- The value stands for something else in content: what a component renders, or what a transformer
makes of an object. -/
def isStandIn (options : Options) : Value → Bool
  | .component .. => true
  | .object entries => (options.transform? entries).isSome
  | _ => false

/-- Where all futures settle, the leaves are nothing but leaves. -/
theorem Arrives.of_mem_markupLeaves {mode : Mode} {v : Value} (h : Arrives options mode v)
    (content : mode.content = true) :
    ∀ leaf ∈ markupLeaves options mode.expansions v,
      leaf.isStandIn options = false ∧ leaf.isAsync = false ∧ leavesOf leaf = [leaf] := by
  induction h with
  | array _ ih =>
    intro leaf member
    rw [markupLeaves, gathered_array, if_pos rfl] at member
    obtain ⟨v, inside, member⟩ := List.mem_flatMap.mp member
    exact ih v inside content leaf member
  | component _ ih => exact ih content content
  | kept none =>
    intro leaf member
    rw [markupLeaves, gathered_kept (none content)] at member
    obtain rfl := List.mem_singleton.mp member
    rw [isStandIn, none content]
    exact ⟨rfl, rfl, rfl⟩
  | transformed found _ ih =>
    rw [markupLeaves, gathered_transformed found]
    exact ih rfl
  | resolves _ ih => exact ih content
  | @placeholder mode kind value _ ih =>
    intro leaf member
    rw [markupLeaves, gathered_placeholder] at member
    split at member
    · obtain rfl := List.mem_singleton.mp member
      exact ⟨rfl, rfl, rfl⟩
    · exact ih content leaf member
  | @deferred mode kind name future _ ih =>
    intro leaf member
    rw [markupLeaves, gathered_deferred, gathered_placeholder] at member
    split at member
    · obtain rfl := List.mem_singleton.mp member
      exact ⟨rfl, rfl, rfl⟩
    · exact ih content leaf member
  | _ =>
    intro leaf member
    obtain rfl := List.mem_singleton.mp member
    exact ⟨rfl, rfl, rfl⟩

/-- In a value that need not be waited for, the values that are reached through arrays are the
leaves, if none of them stands for something else. -/
theorem markupLeaves_of_not_async {v : Value} (silent : isAsync v = false)
    (plain : ∀ leaf ∈ leavesOf v, leaf.isStandIn options = false) :
    markupLeaves options n v = leavesOf v := by
  induction v using elementInduction with
  | array items ih =>
    have each := anyAsync_eq_false.mp silent
    rw [leavesOf, leaves_eq_flatMap] at plain ⊢
    rw [markupLeaves, gathered_array, if_pos rfl]
    refine List.flatMap_congr fun v member => ih v member (each v member) fun leaf inside => ?_
    exact plain leaf (List.mem_flatMap.mpr ⟨v, member, inside⟩)
  | object entries =>
    have kept := plain (object entries) List.mem_cons_self
    cases found : options.transform? entries with
    | none => exact gathered_kept found
    | some transformed =>
      rw [isStandIn, found] at kept
      cases kept
  | component name body => cases plain (component name body) List.mem_cons_self
  | resolves => cases silent
  | rejects => cases silent
  | never => cases silent
  | placeholder => cases silent
  | deferred => cases silent
  | _ => rfl

/-- The pieces of a value whose futures all settle are its leaves exactly if none of them stands for
something else. -/
theorem Arrives.pieces_eq_leaves {mode : Mode} {v : Value} (h : Arrives options mode v)
    (content : mode.content = true) :
    pieces options mode.expansions v = markupLeaves options mode.expansions v ↔
      ∀ piece ∈ pieces options mode.expansions v, piece.isStandIn options = false := by
  constructor
  · intro same
    rw [same]
    exact fun leaf member => (h.of_mem_markupLeaves content leaf member).1
  · intro plain
    induction h with
    | @array mode items _ ih =>
      rw [pieces, gathered_array] at plain ⊢
      split
      · rename_i waits
        rw [if_pos waits] at plain
        rw [markupLeaves, gathered_array, if_pos rfl]
        refine List.flatMap_congr fun v member => ih v member content fun piece inside => ?_
        exact plain piece (List.mem_flatMap.mpr ⟨v, member, inside⟩)
      · rename_i silent
        rw [if_neg silent] at plain
        exact (markupLeaves_of_not_async (v := Value.array items) (Bool.eq_false_iff.mpr silent)
          plain).symm
    | component _ ih => exact ih content content plain
    | kept none =>
      rw [pieces, markupLeaves, gathered_kept (none content), gathered_kept (none content)]
    | transformed found _ ih =>
      rw [pieces, gathered_transformed found] at plain ⊢
      rw [markupLeaves, gathered_transformed found]
      exact ih rfl plain
    | resolves _ ih => exact ih content plain
    | placeholder _ ih =>
      rw [pieces, gathered_placeholder] at plain ⊢
      rw [markupLeaves, gathered_placeholder]
      split
      · rfl
      · rename_i other
        rw [if_neg other] at plain
        exact ih content plain
    | deferred _ ih =>
      rw [pieces, gathered_deferred, gathered_placeholder] at plain ⊢
      rw [markupLeaves, gathered_deferred, gathered_placeholder]
      split
      · rfl
      · rename_i other
        rw [if_neg other] at plain
        exact ih content plain
    | _ => rfl

end Pieces

end Value

end HtmlTemplate
