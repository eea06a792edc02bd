import HtmlTemplate.Proofs.Value.Overlooked

/-!
# How waits end

A wait settles with a value, fails, or never ends, and for a value which of these it is is known
before anybody asks for it (`Value.fate`). Everything on the way to a single value comes one after
the other. A group of values depends on its size: in a small group one failure is the end of all, in
a large one the first member that does not settle decides, even if it waits for ever and a later one
fails.

Values that arrive settle with what they resolve to (`Value.Arrives.fate_eq`).
-/

namespace HtmlTemplate

variable {options : Options}

/-- How a wait ends. -/
inductive Fate (α : Type) where
  | settles (a : α)
  | fails
  | never

namespace Fate

variable {α β : Type}

/-- Whether the wait settles. -/
def isSettled : Fate α → Bool
  | settles _ => true
  | _ => false

/-- The same end, with another value. -/
def map (f : α → β) : Fate α → Fate β
  | settles a => settles (f a)
  | fails => fails
  | never => never

/-- How a wait for one more ends, if any failure ends it. -/
def beside : Fate α → Fate (List α) → Fate (List α)
  | settles a, others => others.map (a :: ·)
  | fails, _ => fails
  | never, fails => fails
  | never, _ => never

/-- How a wait for all of some ends, if any failure ends it. -/
def together : List (Fate α) → Fate (List α)
  | [] => settles []
  | f :: rest => beside f (together rest)

/-- How a wait for one after the other ends. -/
def inTurn : List (Fate α) → Fate (List α)
  | [] => settles []
  | settles a :: rest => (inTurn rest).map (a :: ·)
  | fails :: _ => fails
  | never :: _ => never

/-- How the wait for a group ends; `ready` are the members to poll in a large one. -/
def joined (ready : Option (List Nat)) (fates : List (Fate α)) : Fate (List α) :=
  match ready with
  | none => together fates
  | some _ => inTurn fates

theorem map_map {γ : Type} (g : β → γ) (f : α → β) (fate : Fate α) :
    (fate.map f).map g = fate.map fun a => g (f a) := by
  cases fate <;> rfl

theorem map_id (fate : Fate α) : fate.map id = fate := by
  cases fate <;> rfl

theorem map_injective {f : α → β} (injective : Function.Injective f) :
    Function.Injective (Fate.map f) := by
  intro fate fate' same
  cases fate <;> cases fate' <;>
    first | rfl | cases same | exact congrArg settles (injective (settles.inj same))

theorem map_eq_settles {f : α → β} {fate : Fate α} {b : β} :
    fate.map f = settles b ↔ ∃ a, fate = settles a ∧ f a = b := by
  cases fate <;> simp [map]

@[simp] theorem map_eq_fails {f : α → β} {fate : Fate α} : fate.map f = fails ↔ fate = fails := by
  cases fate <;> simp [map]

@[simp] theorem map_eq_never {f : α → β} {fate : Fate α} : fate.map f = never ↔ fate = never := by
  cases fate <;> simp [map]

/-! ## Groups -/

/-- A small group fails if one of its members does. -/
theorem together_eq_fails {fates : List (Fate α)} : together fates = fails ↔ fails ∈ fates := by
  induction fates with
  | nil => simp [together]
  | cons f rest ih =>
    rw [List.mem_cons, ← ih, together]
    cases f with
    | settles a => simp [beside]
    | fails => simp [beside]
    | never => cases together rest <;> simp [beside]

/-- A large group fails if the first member that does not settle fails. -/
theorem inTurn_eq_fails {fates : List (Fate α)} :
    inTurn fates = fails ↔ fates.find? (fun f => !f.isSettled) = some fails := by
  induction fates with
  | nil => simp [inTurn]
  | cons f rest ih =>
    cases f with
    | settles a => simp [inTurn, isSettled, ih]
    | fails => simp [inTurn, isSettled]
    | never => simp [inTurn, isSettled]

/-- A group whose first member settles goes by the others. -/
theorem settles_cons {rest : List (Fate α)} {others : Fate (List α)}
    (ih : ∀ {as : List α}, others = settles as ↔ rest = as.map settles) {b : α} {as : List α} :
    others.map (b :: ·) = settles as ↔ settles b :: rest = as.map settles := by
  rw [map_eq_settles]
  constructor
  · rintro ⟨bs, settled, rfl⟩
    rw [ih.mp settled, List.map_cons]
  · intro same
    cases as with
    | nil => cases same
    | cons a as =>
      obtain ⟨first, later⟩ := List.cons.inj same
      cases first
      exact ⟨as, ih.mpr later, rfl⟩

theorem together_eq_settles {fates : List (Fate α)} {as : List α} :
    together fates = settles as ↔ fates = as.map settles := by
  induction fates generalizing as with
  | nil => simp [together, eq_comm (b := as)]
  | cons f rest ih =>
    cases f with
    | settles b => exact settles_cons ih
    | fails => cases as <;> simp [together, beside]
    | never => cases as <;> cases others : together rest <;> simp [together, beside, others]

theorem inTurn_eq_settles {fates : List (Fate α)} {as : List α} :
    inTurn fates = settles as ↔ fates = as.map settles := by
  induction fates generalizing as with
  | nil => simp [inTurn, eq_comm (b := as)]
  | cons f rest ih =>
    cases f with
    | settles b => exact settles_cons ih
    | fails => cases as <;> simp [inTurn]
    | never => cases as <;> simp [inTurn]

/-- A group settles if all its members do. -/
theorem joined_eq_settles {ready : Option (List Nat)} {fates : List (Fate α)} {as : List α} :
    joined ready fates = settles as ↔ fates = as.map settles := by
  cases ready with
  | none => exact together_eq_settles
  | some ready => exact inTurn_eq_settles

/-- A large group never ends if the first member that does not settle never does. -/
theorem inTurn_eq_never {fates : List (Fate α)} :
    inTurn fates = never ↔ fates.find? (fun f => !f.isSettled) = some never := by
  induction fates with
  | nil => simp [inTurn]
  | cons f rest ih =>
    cases f with
    | settles a => simp [inTurn, isSettled, ih]
    | fails => simp [inTurn, isSettled]
    | never => simp [inTurn, isSettled]

/-- A group that fails has a member that does. -/
theorem fails_mem_of_joined {ready : Option (List Nat)} {fates : List (Fate α)}
    (failed : joined ready fates = fails) : fails ∈ fates := by
  cases ready with
  | none => exact together_eq_fails.mp failed
  | some ready => exact List.mem_of_find?_eq_some (inTurn_eq_fails.mp failed)

/-- A group that never ends has a member that never does. -/
theorem never_mem_of_joined {ready : Option (List Nat)} {fates : List (Fate α)}
    (endless : joined ready fates = never) : never ∈ fates := by
  cases ready with
  | some ready => exact List.mem_of_find?_eq_some (inTurn_eq_never.mp endless)
  | none =>
    replace endless : together fates = never := endless
    induction fates with
    | nil => cases endless
    | cons f rest ih =>
      rw [together] at endless
      cases f with
      | settles a => exact List.mem_cons_of_mem _ (ih (map_eq_never.mp endless))
      | fails => cases endless
      | never => exact List.mem_cons_self

/-- A group whose members do not all settle does not settle. -/
theorem not_settles_of_mem {ready : Option (List Nat)} {fates : List (Fate α)} {fate : Fate α}
    (member : fate ∈ fates) (other : ∀ a, fate ≠ settles a) (as : List α) :
    joined ready fates ≠ settles as := by
  intro settled
  rw [joined_eq_settles.mp settled] at member
  obtain ⟨a, _, same⟩ := List.mem_map.mp member
  exact other a same.symm

end Fate

/-! ## Values -/

namespace Value

mutual

/-- How the wait for a value ends, given how it does for an object in content. -/
def fateWith (object : List (Text × Value) → Fate Value) (content : Bool) : Value → Fate Value
  | .resolves _ _ value => fateWith object content value
  | .rejects .. => .fails
  | .never => .never
  | .placeholder kind value =>
    (fateWith object content value).map fun v => (Task.convertValue kind v).result
  | .deferred kind _ future =>
    (fateWith object content future).map fun v => (Task.convertValue kind v).result
  | .array items =>
    if anyAsync items then
      (Fate.joined (Group.readyAtFirst items.length) (fatesWith object content items)).map .array
    else .settles (.array items)
  | .component name body =>
    if content then fateWith object content body else .settles (.component name body)
  | .object entries => if content then object entries else .settles (.object entries)
  | v => .settles v

/-- How the waits for some values end. -/
def fatesWith (object : List (Text × Value) → Fate Value) (content : Bool) :
    List Value → List (Fate Value)
  | [] => []
  | v :: rest => fateWith object content v :: fatesWith object content rest

end

/-- How the wait for an object in content ends that may be replaced `expansions` times. -/
def fateObject (options : Options) : Nat → List (Text × Value) → Fate Value
  | 0, _ => .settles .null
  | expansions + 1, entries =>
    match options.transform? entries with
    | some transformed => fateWith (fateObject options expansions) true transformed.result
    | none => .settles (.object entries)

/-- How the wait for a value ends. -/
def fate (options : Options) (mode : Mode) (value : Value) : Fate Value :=
  fateWith (fateObject options mode.expansions) mode.content value

theorem fatesWith_eq_map (object : List (Text × Value) → Fate Value) (content : Bool)
    (items : List Value) :
    fatesWith object content items = items.map (fateWith object content) := by
  induction items with
  | nil => rfl
  | cons v rest ih => simp only [fatesWith, List.map_cons, ih]

theorem fate_array (options : Options) (mode : Mode) (items : List Value) :
    fate options mode (.array items) =
      if anyAsync items then
        (Fate.joined (Group.readyAtFirst items.length) (items.map (fate options mode))).map .array
      else .settles (.array items) := by
  rw [fate, fateWith, fatesWith_eq_map]
  rfl

/-- A value that arrives settles with what it resolves to. -/
theorem Arrives.fate_eq {mode : Mode} {v : Value} (h : Arrives options mode v) :
    v.fate options mode = .settles (v.resolved options mode) := by
  induction h with
  | @array mode items _ ih =>
    rw [fate_array, resolved_array]
    split
    · refine Fate.map_eq_settles.mpr ⟨items.map (resolved options mode), ?_, rfl⟩
      rw [Fate.joined_eq_settles, List.map_map]
      exact List.map_congr_left ih
    · rfl
  | @component mode name body _ ih =>
    rw [fate, fateWith, resolved, resolveWith]
    split
    · rename_i content
      exact ih content
    · rfl
  | @kept mode entries none =>
    rw [fate, fateWith, resolved, resolveWith]
    split
    · rename_i content
      cases mode.expansions with
      | zero => rfl
      | succ n => rw [fateObject, resolveObject, none content]
    · rfl
  | @transformed n entries transformed found _ ih =>
    rw [fate, fateWith, resolved, resolveWith]
    simp only [if_true, fateObject, resolveObject, found]
    exact ih
  | resolves _ ih => exact ih
  | placeholder _ ih => exact Fate.map_eq_settles.mpr ⟨_, ih, rfl⟩
  | deferred _ ih => exact Fate.map_eq_settles.mpr ⟨_, ih, rfl⟩
  | _ => rfl

end Value

end HtmlTemplate
