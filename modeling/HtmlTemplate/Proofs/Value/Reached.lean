import HtmlTemplate.Proofs.Value.Fate

/-!
# What is asked for on the way to a value

Whoever asks for a value may have to ask for others first: the elements of an array that has to be
waited for, what a future settles with, what stands behind a placeholder, and in content what a
component renders and what replaces an object (`Value.Reaches`). This explains how a wait ends. It
fails only when a rejecting future is reached, and is endless only when a value is reached that
never becomes available (`Value.explained_fate`); where either is reached, the wait does not settle
(`Value.Reaches.settles`).
-/

namespace HtmlTemplate

variable {options : Options}

namespace Value

/-- The second value is asked for on the way to the first, if nothing before it keeps from that. -/
inductive Reaches (options : Options) : Mode → Value → Value → Prop
  | here {mode v} : Reaches options mode v v
  | element {mode items item v} : anyAsync items = true → item ∈ items →
      Reaches options mode item v → Reaches options mode (.array items) v
  | body {mode name body v} : mode.content = true →
      Reaches options mode body v → Reaches options mode (.component name body) v
  | replacement {n entries transformed v} : options.transform? entries = some transformed →
      Reaches options ⟨true, n⟩ transformed.result v →
      Reaches options ⟨true, n + 1⟩ (.object entries) v
  | resolves {mode delay name value v} : Reaches options mode value v →
      Reaches options mode (.resolves delay name value) v
  | placeholder {mode kind value v} : Reaches options mode value v →
      Reaches options mode (.placeholder kind value) v
  | deferred {mode kind name future v} : Reaches options mode future v →
      Reaches options mode (.deferred kind name future) v

/-- A future that is rejected with a reason is reached. -/
def Rejects (options : Options) (mode : Mode) (v : Value) (reason : Text) : Prop :=
  ∃ delay name, v.Reaches options mode (.rejects delay name reason)

variable {mode : Mode} {v w : Value}

/-- On the way to a value that settles everything does. -/
theorem Reaches.settles (reached : v.Reaches options mode w)
    (settles : ∃ a, v.fate options mode = .settles a) :
    ∃ mode' a, w.fate options mode' = .settles a := by
  induction reached with
  | here => exact ⟨_, settles⟩
  | @element mode items item v waits member _ ih =>
    obtain ⟨a, settles⟩ := settles
    rw [fate_array, if_pos waits] at settles
    obtain ⟨values, joined, _⟩ := Fate.map_eq_settles.mp settles
    have inside : item.fate options mode ∈ values.map .settles := by
      rw [← Fate.joined_eq_settles.mp joined]
      exact List.mem_map.mpr ⟨item, member, rfl⟩
    obtain ⟨b, _, same⟩ := List.mem_map.mp inside
    exact ih ⟨b, same.symm⟩
  | body content _ ih =>
    rw [fate, fateWith, if_pos content] at settles
    exact ih settles
  | replacement found _ ih =>
    simp only [fate, fateWith, fateObject, found, if_true] at settles
    exact ih settles
  | resolves _ ih => exact ih settles
  | placeholder _ ih =>
    obtain ⟨a, settles⟩ := settles
    obtain ⟨b, settles, _⟩ := Fate.map_eq_settles.mp settles
    exact ih ⟨b, settles⟩
  | deferred _ ih =>
    obtain ⟨a, settles⟩ := settles
    obtain ⟨b, settles, _⟩ := Fate.map_eq_settles.mp settles
    exact ih ⟨b, settles⟩

/-- A value that settles rejects for no reason. -/
theorem not_rejects_of_settles {a : Value} (settles : v.fate options mode = .settles a)
    (reason : Text) :
    ¬ v.Rejects options mode reason := by
  rintro ⟨delay, name, reached⟩
  obtain ⟨_, _, settles⟩ := reached.settles ⟨a, settles⟩
  cases settles

/-- What explains that the wait for a value ends in a certain way. -/
def Explained (options : Options) (mode : Mode) (v : Value) : Fate Value → Prop
  | .settles a => a = v.resolved options mode
  | .fails => ∃ reason, v.Rejects options mode reason
  | .never => v.Reaches options mode .never

/-- What explains the end of a part explains that of the whole, which makes something of it. -/
theorem Explained.of_part {part : Value} {fate : Fate Value} {mode' : Mode} {f : Value → Value}
    (explained : Explained options mode' part fate)
    (reaches : ∀ {u}, part.Reaches options mode' u → v.Reaches options mode u)
    (same : f (part.resolved options mode') = v.resolved options mode) :
    Explained options mode v (fate.map f) := by
  cases fate with
  | settles a =>
    obtain rfl : a = part.resolved options mode' := explained
    exact same
  | fails =>
    obtain ⟨reason, delay, name, reached⟩ := explained
    exact ⟨reason, delay, name, reaches reached⟩
  | never => exact reaches explained

theorem explained_array {items : List Value} (waits : anyAsync items = true)
    (ih : ∀ v ∈ items, Explained options mode v (v.fate options mode)) :
    Explained options mode (array items) ((array items).fate options mode) := by
  rw [fate_array, if_pos waits]
  cases joined : Fate.joined (Group.readyAtFirst items.length) (items.map (fate options mode)) with
  | settles values =>
    have each : items.map (fate options mode) =
        (items.map (resolved options mode)).map .settles := by
      rw [List.map_map]
      refine List.map_congr_left fun v member => ?_
      have settles : v.fate options mode ∈ values.map .settles := by
        rw [← Fate.joined_eq_settles.mp joined]
        exact List.mem_map.mpr ⟨v, member, rfl⟩
      obtain ⟨a, _, same⟩ := List.mem_map.mp settles
      have explained := ih v member
      rw [← same] at explained ⊢
      exact congrArg Fate.settles explained
    rw [Fate.joined_eq_settles.mpr each] at joined
    show array values = _
    rw [resolved_array, if_pos waits, Fate.settles.inj joined]
  | fails =>
    obtain ⟨v, member, fails⟩ := List.mem_map.mp (Fate.fails_mem_of_joined joined)
    have explained := ih v member
    rw [fails] at explained
    obtain ⟨reason, delay, name, reached⟩ := explained
    exact ⟨reason, delay, name, .element waits member reached⟩
  | never =>
    obtain ⟨v, member, never⟩ := List.mem_map.mp (Fate.never_mem_of_joined joined)
    have explained := ih v member
    rw [never] at explained
    exact .element waits member explained

/-- All ends are explained if those of objects are. -/
theorem explained_of_objects
    (objects : ∀ entries,
      Explained options mode (object entries) ((object entries).fate options mode))
    (v : Value) : Explained options mode v (v.fate options mode) := by
  induction v using elementInduction with
  | array items ih =>
    cases waits : anyAsync items with
    | true => exact explained_array waits ih
    | false =>
      rw [fate_array, waits]
      show array items = _
      rw [resolved_array, waits]
      rfl
  | object entries => exact objects entries
  | component name body ih =>
    rw [fate, fateWith]
    split
    · rename_i content
      have part := ih.of_part (v := component name body) (f := id) (.body content)
        (by rw [resolved, resolved, resolveWith, if_pos content]; rfl)
      rw [Fate.map_id] at part
      exact part
    · rename_i content
      show component name body = _
      rw [resolved, resolveWith, if_neg content]
  | resolves delay name value ih =>
    have part := ih.of_part (v := resolves delay name value) (f := id) .resolves rfl
    rw [Fate.map_id] at part
    exact part
  | rejects delay name reason => exact ⟨reason, delay, name, .here⟩
  | never => exact .here
  | placeholder kind value ih => exact ih.of_part .placeholder rfl
  | deferred kind name future ih => exact ih.of_part .deferred rfl
  | _ => exact rfl

/-- How the wait for a value ends is explained by what is asked for on the way. -/
theorem explained_fate (options : Options) (mode : Mode) (v : Value) :
    Explained options mode v (v.fate options mode) := by
  obtain ⟨content, expansions⟩ := mode
  -- What replaces an object may be replaced less often.
  induction expansions generalizing content v with
  | zero =>
    refine explained_of_objects (fun entries => ?_) v
    cases content <;> exact rfl
  | succ expansions ih =>
    refine explained_of_objects (fun entries => ?_) v
    cases content with
    | false => exact rfl
    | true =>
      simp only [fate, fateWith, fateObject, if_true]
      cases found : options.transform? entries with
      | none =>
        show object entries = _
        simp only [resolved, resolveWith, resolveObject, found, if_true]
      | some transformed =>
        have part := (ih transformed.result true).of_part (v := object entries) (f := id)
          (.replacement found)
          (by simp only [resolved, resolveWith, resolveObject, found, if_true]; rfl)
        rw [Fate.map_id] at part
        exact part

theorem eq_resolved_of_settles {a : Value} (settles : v.fate options mode = .settles a) :
    a = v.resolved options mode := by
  have explained := explained_fate options mode v
  rwa [settles] at explained

theorem exists_rejects_of_fails (fails : v.fate options mode = .fails) :
    ∃ reason, v.Rejects options mode reason := by
  have explained := explained_fate options mode v
  rwa [fails] at explained

theorem reaches_never_of_never (endless : v.fate options mode = .never) :
    v.Reaches options mode .never := by
  have explained := explained_fate options mode v
  rwa [endless] at explained

end Value

end HtmlTemplate
