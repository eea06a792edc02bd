import HtmlTemplate.Proofs.Value.Resolved

/-!
# What resolving overlooks

Resolving goes into an array only if one of its elements has to be waited for. A component need not
be waited for, nor does an object, although what the one renders and what replaces the other may
have to be; so an array of them is left as it is. `Overlooked` says where in a value this happens,
and `Arrives.leavesOut_resolved` that it is the only way for a value whose futures all settle to
have something left out when it is written in content.
-/

namespace HtmlTemplate

variable {options : Options}

/-- No transformer tells of values that it could not write. -/
def Options.Discreet (options : Options) : Prop :=
  ∀ {entries transformed}, options.transform? entries = some transformed →
    ∀ shape, .unresolved shape ∉ transformed.notes

namespace Value

/-! ## Values that arrive -/

/-- A value whose futures all settle with a value, wherever they are: in content also behind what a
component renders and what a transformer makes. Chains of replacements end. -/
inductive Arrives (options : Options) : Mode → Value → Prop
  | null {mode} : Arrives options mode null
  | bool {mode b} : Arrives options mode (bool b)
  | int {mode k} : Arrives options mode (int k)
  | float {mode x} : Arrives options mode (float x)
  | str {mode text} : Arrives options mode (str text)
  | html {mode markup} : Arrives options mode (html markup)
  | handler {mode source} : Arrives options mode (handler source)
  | array {mode items} : (∀ v ∈ items, Arrives options mode v) → Arrives options mode (array items)
  | component {mode name body} : (mode.content = true → Arrives options mode body) →
      Arrives options mode (component name body)
  | kept {mode entries} : (mode.content = true → options.transform? entries = none) →
      Arrives options mode (object entries)
  | transformed {n entries transformed} : options.transform? entries = some transformed →
      Arrives options ⟨true, n⟩ transformed.result → Arrives options ⟨true, n + 1⟩ (object entries)
  | resolves {mode delay name value} : Arrives options mode value →
      Arrives options mode (resolves delay name value)
  | placeholder {mode kind value} : Arrives options mode value →
      Arrives options mode (placeholder kind value)
  | deferred {mode kind name future} : Arrives options mode future →
      Arrives options mode (deferred kind name future)

theorem Arrives.elements {mode : Mode} {items : List Value}
    (h : Arrives options mode (.array items)) :
    ∀ v ∈ items, Arrives options mode v := by
  cases h with
  | array each => exact each

theorem Still.arrives {n : Nat} {v : Value} (h : Still options n v) :
    Arrives options ⟨true, n⟩ v := by
  induction h with
  | null => exact .null
  | bool => exact .bool
  | int => exact .int
  | float => exact .float
  | str => exact .str
  | html => exact .html
  | handler => exact .handler
  | array _ ih => exact .array ih
  | component _ ih => exact .component fun _ => ih
  | kept none => exact .kept fun _ => none
  | transformed some _ ih => exact .transformed some ih

/-- Elsewhere than in content, a value that has not to be waited for arrives as it is. -/
theorem arrives_of_silent {n : Nat} {v : Value} (silent : isAsync v = false) :
    Arrives options ⟨false, n⟩ v := by
  induction v using elementInduction with
  | null => exact .null
  | bool => exact .bool
  | int => exact .int
  | float => exact .float
  | str => exact .str
  | html => exact .html
  | handler => exact .handler
  | array items ih =>
    exact .array fun v member => ih v member (anyAsync_eq_false.mp silent v member)
  | object entries => exact .kept nofun
  | component name body => exact .component nofun
  | _ => cases silent

/-- Fair values arrive. -/
theorem Fair.arrives {mode : Mode} {v : Value} (h : Fair options mode v) :
    Arrives options mode v := by
  induction h with
  | base silent still =>
    obtain ⟨content, n⟩ := mode
    cases content with
    | true => exact (still rfl).arrives
    | false => exact arrives_of_silent silent
  | resolves _ ih => exact .resolves ih
  | placeholder _ ih => exact .placeholder ih
  | deferred _ ih => exact .deferred ih
  | array _ ih => exact .array ih

/-! ## What writing leaves out -/

/-- Writing the value in content, with so many replacements, meets something that has to be waited
for and writes nothing in its place. -/
inductive LeavesOut (options : Options) : Nat → Value → Prop
  | resolves {n delay name value} : LeavesOut options n (resolves delay name value)
  | rejects {n delay name reason} : LeavesOut options n (rejects delay name reason)
  | never {n} : LeavesOut options n never
  | placeholder {n kind value} : LeavesOut options n (placeholder kind value)
  | deferred {n kind name future} : LeavesOut options n (deferred kind name future)
  | array {n items v} : v ∈ items → LeavesOut options n v → LeavesOut options n (array items)
  | component {n name body} : LeavesOut options n body → LeavesOut options n (component name body)
  | transformed {n entries transformed} : options.transform? entries = some transformed →
      LeavesOut options n transformed.result → LeavesOut options (n + 1) (object entries)

theorem leavesOut_array {n : Nat} {items : List Value} :
    LeavesOut options n (array items) ↔ ∃ v ∈ items, LeavesOut options n v := by
  constructor
  · intro h
    cases h with
    | array member inside => exact ⟨_, member, inside⟩
  · rintro ⟨v, member, inside⟩
    exact .array member inside

theorem leavesOut_component {n : Nat} {name : Option Text} {body : Value} :
    LeavesOut options n (component name body) ↔ LeavesOut options n body := by
  constructor
  · intro h
    cases h with
    | component inside => exact inside
  · exact .component

/-- An object that no transformer takes is left out itself, but nothing that has to be waited
for. -/
theorem not_leavesOut_kept {n : Nat} {entries : List (Text × Value)}
    (none : options.transform? entries = none) : ¬ LeavesOut options n (object entries) := by
  intro h
  cases h with
  | transformed some _ =>
    rw [none] at some
    cases some

theorem leavesOut_transformed {n : Nat} {entries : List (Text × Value)} {transformed : Noted Value}
    (found : options.transform? entries = some transformed) :
    LeavesOut options (n + 1) (object entries) ↔ LeavesOut options n transformed.result := by
  constructor
  · intro h
    cases h with
    | transformed some inside =>
      rw [found] at some
      cases some
      exact inside
  · exact .transformed found

/-- More replacements than the chains need make no difference. -/
theorem Arrives.leavesOut_iff {mode : Mode} {v : Value} (h : Arrives options mode v)
    (content : mode.content = true) {n m : Nat} (few : mode.expansions ≤ n)
    (enough : mode.expansions ≤ m) : LeavesOut options n v ↔ LeavesOut options m v := by
  induction h generalizing n m with
  | array _ ih =>
    rw [leavesOut_array, leavesOut_array]
    exact exists_congr fun v => and_congr_right fun member => ih v member content few enough
  | component _ ih =>
    rw [leavesOut_component, leavesOut_component]
    exact ih content content few enough
  | kept none =>
    exact iff_of_false (not_leavesOut_kept (none content)) (not_leavesOut_kept (none content))
  | transformed found _ ih =>
    obtain ⟨n, rfl⟩ := Nat.exists_eq_add_of_lt few
    obtain ⟨m, rfl⟩ := Nat.exists_eq_add_of_lt enough
    rw [leavesOut_transformed found, leavesOut_transformed found]
    exact ih rfl (Nat.le_add_right _ _) (Nat.le_add_right _ _)
  | resolves _ _ => exact iff_of_true .resolves .resolves
  | placeholder _ _ => exact iff_of_true .placeholder .placeholder
  | deferred _ _ => exact iff_of_true .deferred .deferred
  | _ => exact iff_of_false (fun h => by cases h) (fun h => by cases h)

/-! ### Notes -/

/-- Whatever writing leaves out it tells of. -/
theorem LeavesOut.noted {n : Nat} {v : Value} (h : LeavesOut options n v) :
    ∃ shape, .unresolved shape ∈ (Content.writeWith (Content.writeObject options n) v).notes := by
  induction h with
  | array member _ ih =>
    obtain ⟨shape, noted⟩ := ih
    refine ⟨shape, ?_⟩
    rw [Content.writeWith, writeAllWith_notes]
    exact List.mem_flatMap.mpr ⟨_, member, noted⟩
  | component _ ih =>
    obtain ⟨shape, noted⟩ := ih
    exact ⟨shape, List.mem_append_right _ noted⟩
  | transformed found _ ih =>
    obtain ⟨shape, noted⟩ := ih
    refine ⟨shape, ?_⟩
    simp only [Content.writeWith, Content.writeObject, found]
    exact List.mem_append_right _ noted
  | _ => exact ⟨_, List.mem_append_left _ (List.mem_singleton.mpr rfl)⟩

/-- Writing tells of nothing else in this way, if replacing objects does not. -/
theorem leavesOut_of_noted_with {n : Nat} {shape : Text}
    (object : ∀ entries, .unresolved shape ∈ (Content.writeObject options n entries).notes →
      LeavesOut options n (.object entries)) {v : Value}
    (h : .unresolved shape ∈ (Content.writeWith (Content.writeObject options n) v).notes) :
    LeavesOut options n v := by
  induction v using elementInduction with
  | array items ih =>
    rw [Content.writeWith, writeAllWith_notes] at h
    obtain ⟨v, member, noted⟩ := List.mem_flatMap.mp h
    exact .array member (ih v member noted)
  | component name body ih =>
    rcases List.mem_append.mp h with rendered | noted
    · cases List.mem_singleton.mp rendered
    · exact .component (ih noted)
  | object entries => exact object entries h
  | resolves => exact .resolves
  | rejects => exact .rejects
  | never => exact .never
  | placeholder => exact .placeholder
  | deferred => exact .deferred
  | bool b => cases b <;> cases h
  | _ => cases h

/-- Writing tells of nothing else in this way. -/
theorem noted_iff_leavesOut (discreet : options.Discreet) {n : Nat} {v : Value} :
    (∃ shape, .unresolved shape ∈
      (Content.writeWith (Content.writeObject options n) v).notes) ↔ LeavesOut options n v := by
  refine ⟨fun h => ?_, LeavesOut.noted⟩
  induction n generalizing v with
  | zero =>
    obtain ⟨shape, h⟩ := h
    refine leavesOut_of_noted_with (fun entries noted => ?_) h
    cases noted
  | succ n ih =>
    obtain ⟨shape, h⟩ := h
    refine leavesOut_of_noted_with (fun entries noted => ?_) h
    cases found : options.transform? entries with
    | none =>
      simp only [Content.writeObject, found] at noted
      cases List.mem_singleton.mp noted
    | some transformed =>
      simp only [Content.writeObject, found] at noted
      rcases List.mem_append.mp noted with told | noted
      · exact absurd told (discreet found shape)
      · exact .transformed found (ih ⟨shape, noted⟩)

/-! ## What resolving overlooks -/

/-- Resolving the value in content, with so many replacements, leaves an array as it is in which
something has to be waited for after all: behind a component or a transformer. -/
inductive Overlooked (options : Options) : Nat → Value → Prop
  | array {n items v} : anyAsync items = false → v ∈ items → LeavesOut options n v →
      Overlooked options n (array items)
  | element {n items v} : anyAsync items = true → v ∈ items → Overlooked options n v →
      Overlooked options n (array items)
  | component {n name body} : Overlooked options n body → Overlooked options n (component name body)
  | transformed {n entries transformed} : options.transform? entries = some transformed →
      Overlooked options n transformed.result → Overlooked options (n + 1) (object entries)
  | resolves {n delay name value} : Overlooked options n value →
      Overlooked options n (resolves delay name value)
  | placeholder {n value} : Overlooked options n value →
      Overlooked options n (placeholder .any value)
  | deferred {n name future} : Overlooked options n future →
      Overlooked options n (deferred .any name future)

theorem overlooked_array {n : Nat} {items : List Value} :
    Overlooked options n (array items) ↔
      if anyAsync items then ∃ v ∈ items, Overlooked options n v
      else ∃ v ∈ items, LeavesOut options n v := by
  constructor
  · intro h
    cases h with
    | array silent member inside =>
      rw [if_neg (Bool.eq_false_iff.mp silent)]
      exact ⟨_, member, inside⟩
    | element waits member inside =>
      rw [if_pos waits]
      exact ⟨_, member, inside⟩
  · intro h
    split at h
    · rename_i waits
      obtain ⟨v, member, inside⟩ := h
      exact .element waits member inside
    · rename_i silent
      obtain ⟨v, member, inside⟩ := h
      exact .array (Bool.eq_false_iff.mpr silent) member inside

theorem overlooked_component {n : Nat} {name : Option Text} {body : Value} :
    Overlooked options n (component name body) ↔ Overlooked options n body := by
  constructor
  · intro h
    cases h with
    | component inside => exact inside
  · exact .component

theorem not_overlooked_kept {n : Nat} {entries : List (Text × Value)}
    (none : options.transform? entries = none) : ¬ Overlooked options n (object entries) := by
  intro h
  cases h with
  | transformed some _ =>
    rw [none] at some
    cases some

theorem overlooked_transformed {n : Nat} {entries : List (Text × Value)}
    {transformed : Noted Value} (found : options.transform? entries = some transformed) :
    Overlooked options (n + 1) (object entries) ↔ Overlooked options n transformed.result := by
  constructor
  · intro h
    cases h with
    | transformed some inside =>
      rw [found] at some
      cases some
      exact inside
  · exact .transformed found

theorem overlooked_resolves {n delay : Nat} {name : Option Text} {value : Value} :
    Overlooked options n (resolves delay name value) ↔ Overlooked options n value := by
  constructor
  · intro h
    cases h with
    | resolves inside => exact inside
  · exact .resolves

/-- Texts and markup that are waited for hold nothing more to wait for. -/
theorem overlooked_placeholder {n : Nat} {kind : PlaceholderKind} {value : Value} :
    Overlooked options n (placeholder kind value) ↔ kind = .any ∧ Overlooked options n value := by
  constructor
  · intro h
    cases h with
    | placeholder inside => exact ⟨rfl, inside⟩
  · rintro ⟨rfl, inside⟩
    exact .placeholder inside

theorem overlooked_deferred {n : Nat} {kind : PlaceholderKind} {name : Option Text}
    {future : Value} :
    Overlooked options n (deferred kind name future) ↔
      kind = .any ∧ Overlooked options n future := by
  constructor
  · intro h
    cases h with
    | deferred inside => exact ⟨rfl, inside⟩
  · rintro ⟨rfl, inside⟩
    exact .deferred inside

theorem leavesOut_convertValue {n : Nat} {kind : PlaceholderKind} {v : Value} :
    LeavesOut options n (Task.convertValue kind v).result ↔
      kind = .any ∧ LeavesOut options n v := by
  cases kind with
  | any => simp [Task.convertValue]
  | text => exact iff_of_false (fun h => by cases h) fun h => by cases h.1
  | html => exact iff_of_false (fun h => by cases h) fun h => by cases h.1

/-- What an array that arrives is resolved to, if resolving goes by its elements. -/
theorem leavesOut_resolved_array {mode : Mode} {n m : Nat} {items : List Value}
    (each : ∀ v ∈ items, (LeavesOut options m v ↔ LeavesOut options n v))
    (ih : ∀ v ∈ items, (LeavesOut options m (resolved options mode v) ↔ Overlooked options n v)) :
    LeavesOut options m (resolved options mode (array items)) ↔
      Overlooked options n (array items) := by
  rw [resolved_array, overlooked_array]
  split
  · rw [leavesOut_array]
    simp only [List.mem_map, exists_exists_and_eq_and]
    exact exists_congr fun v => and_congr_right (ih v)
  · rw [leavesOut_array]
    exact exists_congr fun v => and_congr_right (each v)

/-- What a value that arrives is resolved to is written without leaving anything out that has to be
waited for, unless resolving overlooks it. -/
theorem Arrives.leavesOut_resolved {mode : Mode} {v : Value} (h : Arrives options mode v)
    (content : mode.content = true) {n m : Nat} (same : mode.expansions = n) (enough : n ≤ m) :
    LeavesOut options m (resolved options mode v) ↔ Overlooked options n v := by
  induction h generalizing n m with
  | array each ih =>
    refine leavesOut_resolved_array (fun v member => ?_) fun v member => ?_
    · exact (each v member).leavesOut_iff content (same ▸ enough) (Nat.le_of_eq same)
    · exact ih v member content same enough
  | component _ ih =>
    rw [resolved_component content, overlooked_component]
    exact ih content content same enough
  | kept none =>
    refine iff_of_false ?_ (not_overlooked_kept (none content))
    rcases resolved_kept content (none content) with gone | kept
    · rw [gone]
      intro h
      cases h
    · rw [kept]
      exact not_leavesOut_kept (none content)
  | transformed found _ ih =>
    subst same
    rw [resolved_transformed found, overlooked_transformed found]
    exact ih rfl rfl (Nat.le_of_succ_le enough)
  | resolves _ ih => exact (ih content same enough).trans overlooked_resolves.symm
  | placeholder _ ih =>
    rw [overlooked_placeholder, ← ih content same enough]
    exact leavesOut_convertValue
  | deferred _ ih =>
    rw [overlooked_deferred, ← ih content same enough]
    exact leavesOut_convertValue
  | _ => exact iff_of_false (fun h => by cases h) (fun h => by cases h)

end Value

end HtmlTemplate
