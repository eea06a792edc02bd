import HtmlTemplate.Output.Content
import HtmlTemplate.Task.Resolve
import Mathlib.Data.List.Basic

/-!
# What values resolve to

`resolved` is what is left of a value when everything on the way has settled, with components
rendered and objects replaced in content. `replaced` is the value that a host would have supplied if
it had waited before: only futures and placeholders are gone. Both are written the same, when the
values that components and transformers yield have not to be waited for (`write_resolved`).
-/

namespace HtmlTemplate

variable {options : Options}

namespace Value

/-- Induction on a value, with an array's elements taken one by one. -/
@[elab_as_elim]
theorem elementInduction {motive : Value → Prop} (null : motive null)
    (bool : ∀ b, motive (bool b)) (int : ∀ n, motive (int n)) (float : ∀ x, motive (float x))
    (str : ∀ text, motive (str text)) (html : ∀ markup, motive (html markup))
    (array : ∀ items, (∀ v ∈ items, motive v) → motive (array items))
    (object : ∀ entries, motive (object entries))
    (component : ∀ name body, motive body → motive (component name body))
    (handler : ∀ source, motive (handler source))
    (resolves : ∀ delay name value, motive value → motive (resolves delay name value))
    (rejects : ∀ delay name reason, motive (rejects delay name reason)) (never : motive never)
    (placeholder : ∀ kind value, motive value → motive (placeholder kind value))
    (deferred : ∀ kind name future, motive future → motive (deferred kind name future))
    (v : Value) : motive v :=
  @Value.rec motive (fun items => ∀ v ∈ items, motive v) (fun _ => True) (fun _ => True)
    null bool int float str html array (fun entries _ => object entries) component handler resolves
    rejects never placeholder deferred (fun _ member => by cases member)
    (fun _ _ head tail t member => (List.mem_cons.mp member).elim (· ▸ head) (tail t))
    trivial (fun _ _ _ _ => trivial) (fun _ _ _ => trivial) v

/-! ## Resolving -/

mutual

/-- What a value resolves to, given what an object in content does. -/
def resolveWith (object : List (Text × Value) → Value) (content : Bool) : Value → Value
  | .resolves _ _ value => resolveWith object content value
  | .placeholder kind value => (Task.convertValue kind (resolveWith object content value)).result
  | .deferred kind _ future => (Task.convertValue kind (resolveWith object content future)).result
  | .array items =>
    if anyAsync items then .array (resolveAllWith object content items) else .array items
  | .component name body =>
    if content then resolveWith object content body else .component name body
  | .object entries => if content then object entries else .object entries
  | v => v

/-- What values resolve to. -/
def resolveAllWith (object : List (Text × Value) → Value) (content : Bool) :
    List Value → List Value
  | [] => []
  | v :: rest => resolveWith object content v :: resolveAllWith object content rest

end

/-- What an object in content resolves to that may be replaced `expansions` times. -/
def resolveObject (options : Options) : Nat → List (Text × Value) → Value
  | 0, _ => .null
  | expansions + 1, entries =>
    match options.transform? entries with
    | some transformed => resolveWith (resolveObject options expansions) true transformed.result
    | none => .object entries

/-- What a value resolves to. -/
def resolved (options : Options) (mode : Mode) (value : Value) : Value :=
  resolveWith (resolveObject options mode.expansions) mode.content value

mutual

/-- The value with everything that has to be waited for replaced by what it resolves to. -/
def replaced (options : Options) (mode : Mode) : Value → Value
  | .resolves _ _ value => replaced options mode value
  | .placeholder .any value => replaced options mode value
  | .placeholder kind value => (Task.convertValue kind (resolved options mode value)).result
  | .deferred .any _ future => replaced options mode future
  | .deferred kind _ future => (Task.convertValue kind (resolved options mode future)).result
  | .array items => .array (replacedAll options mode items)
  | v => v

/-- The values with everything that has to be waited for replaced by what it resolves to. -/
def replacedAll (options : Options) (mode : Mode) : List Value → List Value
  | [] => []
  | v :: rest => replaced options mode v :: replacedAll options mode rest

end

theorem resolveAllWith_eq_map (object : List (Text × Value) → Value) (content : Bool)
    (items : List Value) :
    resolveAllWith object content items = items.map (resolveWith object content) := by
  induction items with
  | nil => rfl
  | cons v rest ih => simp only [resolveAllWith, List.map_cons, ih]

theorem replacedAll_eq_map (mode : Mode) (items : List Value) :
    replacedAll options mode items = items.map (replaced options mode) := by
  induction items with
  | nil => rfl
  | cons v rest ih => simp only [replacedAll, List.map_cons, ih]

theorem resolved_array (mode : Mode) (items : List Value) :
    resolved options mode (.array items) =
      if anyAsync items then .array (items.map (resolved options mode)) else .array items := by
  rw [resolved, resolveWith, resolveAllWith_eq_map]
  rfl

theorem resolved_component {mode : Mode} (content : mode.content = true) (name : Option Text)
    (body : Value) : resolved options mode (component name body) = resolved options mode body := by
  rw [resolved, resolveWith, if_pos content]
  rfl

theorem resolved_transformed {n : Nat} {entries : List (Text × Value)} {transformed : Noted Value}
    (found : options.transform? entries = some transformed) :
    resolved options ⟨true, n + 1⟩ (object entries) =
      resolved options ⟨true, n⟩ transformed.result := by
  rw [resolved, resolveWith, if_pos rfl, resolveObject, found]
  rfl

/-- An object that no transformer takes is resolved to itself, or to nothing. -/
theorem resolved_kept {mode : Mode} (content : mode.content = true) {entries : List (Text × Value)}
    (none : options.transform? entries = none) :
    resolved options mode (object entries) = null ∨
      resolved options mode (object entries) = object entries := by
  rw [resolved, resolveWith, if_pos content]
  cases mode.expansions with
  | zero => exact .inl rfl
  | succ k =>
    rw [resolveObject, none]
    exact .inr rfl

theorem anyAsync_eq_false {items : List Value} :
    anyAsync items = false ↔ ∀ v ∈ items, isAsync v = false := by
  induction items with
  | nil => simp [anyAsync]
  | cons v rest ih => simp [anyAsync, ih]

/-- What keeps whether each of some values has to be waited for keeps whether one of them has. -/
theorem anyAsync_map {f : Value → Value} {items : List Value}
    (same : ∀ v ∈ items, isAsync (f v) = isAsync v) : anyAsync (items.map f) = anyAsync items := by
  induction items with
  | nil => rfl
  | cons v rest ih =>
    rw [List.map_cons, anyAsync, anyAsync, same v List.mem_cons_self,
      ih fun u member => same u (List.mem_cons_of_mem v member)]

/-- There is nothing to replace in a value that need not be waited for. -/
theorem replaced_of_not_async (mode : Mode) {v : Value} (h : isAsync v = false) :
    replaced options mode v = v := by
  induction v using elementInduction with
  | array items ih =>
    have each := anyAsync_eq_false.mp h
    rw [replaced, replacedAll_eq_map]
    exact congrArg array
      ((List.map_congr_left fun v member => ih v member (each v member)).trans (List.map_id items))
  | resolves delay name value => cases h
  | placeholder kind value => cases h
  | deferred kind name future => cases h
  | _ => rfl

/-! ## Values that can be waited for -/

/-- A value that content can write at once: whatever its components render, and whatever replaces
its objects, at most `expansions` times in a row, need not be waited for. -/
inductive Still (options : Options) : Nat → Value → Prop
  | null {n} : Still options n null
  | bool {n b} : Still options n (bool b)
  | int {n k} : Still options n (int k)
  | float {n x} : Still options n (float x)
  | str {n text} : Still options n (str text)
  | html {n markup} : Still options n (html markup)
  | handler {n source} : Still options n (handler source)
  | array {n items} : (∀ v ∈ items, Still options n v) → Still options n (array items)
  | component {n name body} : Still options n body → Still options n (component name body)
  | kept {n entries} : options.transform? entries = none → Still options n (object entries)
  | transformed {n entries transformed} : options.transform? entries = some transformed →
      Still options n transformed.result → Still options (n + 1) (object entries)

/-- A value whose futures all settle with a value, and which is made of values that meet `base`
otherwise. -/
inductive Settles (base : Value → Prop) : Value → Prop
  | base {v} : isAsync v = false → base v → Settles base v
  | resolves {delay name value} : Settles base value → Settles base (resolves delay name value)
  | placeholder {kind value} : Settles base value → Settles base (placeholder kind value)
  | deferred {kind name future} : Settles base future → Settles base (deferred kind name future)
  | array {items} : (∀ v ∈ items, Settles base v) → Settles base (array items)

/-- A value whose futures all settle with a value. In content, what components render and
transformers make has not to be waited for, and the chains of replacements end. -/
def Fair (options : Options) (mode : Mode) : Value → Prop :=
  Settles fun v => mode.content = true → Still options mode.expansions v

theorem Still.isAsync {n : Nat} {v : Value} (h : Still options n v) : isAsync v = false := by
  induction h with
  | array _ ih => exact anyAsync_eq_false.mpr ih
  | _ => rfl

/-- A longer patience does no harm. -/
theorem Still.mono {n m : Nat} {v : Value} (h : Still options n v) (le : n ≤ m) :
    Still options m v := by
  induction h generalizing m with
  | null => exact .null
  | bool => exact .bool
  | int => exact .int
  | float => exact .float
  | str => exact .str
  | html => exact .html
  | handler => exact .handler
  | array _ ih => exact .array fun v member => ih v member le
  | component _ ih => exact .component (ih le)
  | kept none => exact .kept none
  | transformed some _ ih =>
    obtain ⟨k, rfl⟩ : ∃ k, m = k + 1 := ⟨m - 1, by omega⟩
    exact .transformed some (ih (Nat.le_of_succ_le_succ le))

theorem Fair.mono {content : Bool} {n m : Nat} {v : Value} (h : Fair options ⟨content, n⟩ v)
    (le : n ≤ m) : Fair options ⟨content, m⟩ v := by
  induction h with
  | base silent still => exact .base silent fun inside => (still inside).mono le
  | resolves _ ih => exact .resolves ih
  | placeholder _ ih => exact .placeholder ih
  | deferred _ ih => exact .deferred ih
  | array _ ih => exact .array ih

theorem Still.elements {n : Nat} {items : List Value} (h : Still options n (.array items)) :
    ∀ v ∈ items, Still options n v := by
  cases h with
  | array each => exact each

/-- The elements of a fair array are fair. -/
theorem Fair.elements {mode : Mode} {items : List Value} (h : Fair options mode (array items)) :
    ∀ v ∈ items, Fair options mode v := by
  intro v member
  cases h with
  | array each => exact each v member
  | base silent base =>
    exact .base (anyAsync_eq_false.mp silent v member) fun content =>
      (base content).elements v member

/-- What an array hands on to its elements, it hands on to the values that are reached through
it. -/
theorem leaf_of_elements {good : Value → Prop}
    (elements : ∀ {items}, good (array items) → ∀ v ∈ items, good v) {v : Value} (h : good v) :
    ∀ leaf ∈ leavesOf v, good leaf := by
  induction v using elementInduction with
  | array items ih =>
    replace ih := fun v member => ih v member (elements h v member)
    clear h
    rw [leavesOf]
    induction items with
    | nil => exact fun leaf member => by cases member
    | cons v rest ihRest =>
      intro leaf member
      rcases List.mem_append.mp member with first | later
      · exact ih v List.mem_cons_self leaf first
      · exact ihRest (fun u member => ih u (List.mem_cons_of_mem v member)) leaf later
  | _ =>
    intro leaf member
    rw [leavesOf] at member
    · rw [List.mem_singleton.mp member]
      exact h
    · intro items same
      cases same

theorem leaves_eq_flatMap (items : List Value) : leaves items = items.flatMap leavesOf := by
  induction items with
  | nil => rfl
  | cons v rest ih => rw [leaves, List.flatMap_cons, ih]

/-- What an array has from its elements, it has from the values that are reached through it. -/
theorem flatMap_leavesOf {α : Type} {f : Value → List α}
    (elements : ∀ items, f (array items) = items.flatMap f) (v : Value) :
    (leavesOf v).flatMap f = f v := by
  induction v using elementInduction with
  | array items ih =>
    rw [leavesOf, leaves_eq_flatMap, List.flatMap_assoc, List.flatMap_congr ih, elements]
  | _ => exact List.append_nil _

/-- What is left after replacing need not be waited for. -/
theorem isAsync_replaced {mode : Mode} {v : Value} (h : Fair options mode v) :
    isAsync (replaced options mode v) = false := by
  induction h with
  | base silent _ => rw [replaced_of_not_async mode silent]; exact silent
  | resolves _ ih => exact ih
  | @placeholder kind _ _ ih =>
    cases kind with
    | any => exact ih
    | _ => rfl
  | @deferred kind _ _ _ ih =>
    cases kind with
    | any => exact ih
    | _ => rfl
  | array _ ih =>
    rw [replaced, replacedAll_eq_map]
    refine anyAsync_eq_false.mpr fun v member => ?_
    obtain ⟨u, inside, rfl⟩ := List.mem_map.mp member
    exact ih u inside

/-! ## Outside content -/

/-- Outside content, resolving replaces what has to be waited for, and nothing else. -/
theorem resolved_eq_replaced {mode : Mode} (plain : mode.content = false) {v : Value}
    (h : Fair options mode v) : resolved options mode v = replaced options mode v := by
  have silent : ∀ {v : Value}, isAsync v = false → resolved options mode v = v := by
    intro v silent
    cases v with
    | array items => rw [resolved_array, show anyAsync items = false from silent]; rfl
    | component name body => rw [resolved, resolveWith, plain]; rfl
    | object entries => rw [resolved, resolveWith, plain]; rfl
    | resolves delay name value => cases silent
    | placeholder kind value => cases silent
    | deferred kind name future => cases silent
    | _ => rfl
  induction h with
  | base still _ => rw [silent still, replaced_of_not_async mode still]
  | resolves _ ih => exact ih
  | @placeholder kind _ _ ih =>
    cases kind with
    | any => exact ih
    | _ => rfl
  | @deferred kind _ _ _ ih =>
    cases kind with
    | any => exact ih
    | _ => rfl
  | @array items _ ih =>
    rw [resolved_array]
    split
    · rw [replaced, replacedAll_eq_map, List.map_congr_left ih]
    · rename_i silent
      exact (replaced_of_not_async mode (v := array items) (by simpa [isAsync] using silent)).symm

/-! ## In content -/

theorem writeAllWith_result (object : List (Text × Value) → Noted Text) (items : List Value) :
    (Content.writeAllWith object items).result =
      (items.map fun v => (Content.writeWith object v).result).flatten := by
  induction items with
  | nil => rfl
  | cons v rest ih =>
    rw [List.map_cons, List.flatten_cons, ← ih]
    rfl

theorem writeAllWith_notes (object : List (Text × Value) → Noted Text) (items : List Value) :
    (Content.writeAllWith object items).notes =
      items.flatMap fun v => (Content.writeWith object v).notes := by
  induction items with
  | nil => rfl
  | cons v rest ih =>
    rw [List.flatMap_cons, ← ih]
    simp [Content.writeAllWith]

/-- How often objects may be replaced makes no difference once all chains end. -/
theorem Still.write_eq {n : Nat} {v : Value} (h : Still options n v) {m m' : Nat} (le : n ≤ m)
    (le' : n ≤ m') :
    (Content.writeWith (Content.writeObject options m) v).result =
      (Content.writeWith (Content.writeObject options m') v).result := by
  induction h generalizing m m' with
  | array _ ih =>
    simp only [Content.writeWith, writeAllWith_result]
    exact congrArg List.flatten (List.map_congr_left fun v member => ih v member le le')
  | component _ ih => exact ih le le'
  | @kept n entries none =>
    have nothing : ∀ m, (Content.writeObject options m entries).result = [] := by
      intro m
      cases m with
      | zero => rfl
      | succ m =>
        simp only [Content.writeObject, none]
        rfl
    exact (nothing m).trans (nothing m').symm
  | transformed some _ ih =>
    obtain ⟨k, rfl⟩ : ∃ k, m = k + 1 := ⟨m - 1, by omega⟩
    obtain ⟨k', rfl⟩ : ∃ k', m' = k' + 1 := ⟨m' - 1, by omega⟩
    simp only [Content.writeWith, Content.writeObject, some]
    exact ih (Nat.le_of_succ_le_succ le) (Nat.le_of_succ_le_succ le')
  | _ => rfl

/-- Rendering components and replacing objects before writing makes no difference. -/
theorem Still.write_resolved {n : Nat} {v : Value} (h : Still options n v) {m : Nat}
    (le : n ≤ m) :
    (Content.writeWith (Content.writeObject options m) (resolved options ⟨true, n⟩ v)).result =
      (Content.writeWith (Content.writeObject options m) v).result := by
  induction h generalizing m with
  | array each _ =>
    rw [resolved_array, anyAsync_eq_false.mpr fun v member => (each v member).isAsync]
    rfl
  | component _ ih => exact ih le
  | @kept n entries none =>
    cases n with
    | zero =>
      cases m with
      | zero => rfl
      | succ m =>
        simp only [Content.writeWith, Content.writeObject, none]
        rfl
    | succ n => rw [resolved, resolveWith, if_pos rfl, resolveObject, none]
  | @transformed n entries transformed some still ih =>
    obtain ⟨k, rfl⟩ : ∃ k, m = k + 1 := ⟨m - 1, by omega⟩
    have replaced : resolved options ⟨true, n + 1⟩ (object entries) =
        resolved options ⟨true, n⟩ transformed.result := by
      rw [resolved, resolveWith, if_pos rfl, resolveObject, some]
      rfl
    have shorter :
        (Content.writeWith (Content.writeObject options (k + 1)) transformed.result).result =
        (Content.writeWith (Content.writeObject options k) transformed.result).result :=
      still.write_eq (by omega) (by omega)
    rw [replaced, ih (by omega), shorter]
    simp only [Content.writeWith, Content.writeObject, some]
    rfl
  | _ => rfl

/-- What has settled is written like what a host would have supplied that had waited. -/
theorem Fair.write_resolved {n : Nat} {v : Value} (h : Fair options ⟨true, n⟩ v) :
    (Content.writeWith (Content.writeObject options n) (resolved options ⟨true, n⟩ v)).result =
      (Content.writeWith (Content.writeObject options n)
        (replaced options ⟨true, n⟩ v)).result := by
  induction h with
  | base silent still =>
    rw [replaced_of_not_async _ silent]
    exact (still rfl).write_resolved (Nat.le_refl n)
  | resolves _ ih => exact ih
  | @placeholder kind _ _ ih =>
    cases kind with
    | any => exact ih
    | _ => rfl
  | @deferred kind _ _ _ ih =>
    cases kind with
    | any => exact ih
    | _ => rfl
  | @array items _ ih =>
    rw [resolved_array]
    split
    · rw [replaced, replacedAll_eq_map]
      simp only [Content.writeWith, writeAllWith_result, List.map_map]
      exact congrArg List.flatten (List.map_congr_left ih)
    · rename_i silent
      rw [replaced_of_not_async _ (v := array items) (by simpa [isAsync] using silent)]

/-- The elements of nested arrays are written one by one as the whole array is. -/
theorem Fair.write_leaves {n : Nat} {v : Value} (h : Fair options ⟨true, n⟩ v) :
    ((leavesOf v).map fun leaf => (Content.writeWith (Content.writeObject options n)
        (resolved options ⟨true, n⟩ leaf)).result).flatten =
      (Content.writeWith (Content.writeObject options n)
        (replaced options ⟨true, n⟩ v)).result := by
  induction v using elementInduction with
  | array items ih =>
    replace ih := fun v member => ih v member (h.elements v member)
    rw [replaced, replacedAll_eq_map, leavesOf, Content.writeWith, writeAllWith_result]
    clear h
    induction items with
    | nil => rfl
    | cons v rest ihRest =>
      rw [leaves, List.map_append, List.flatten_append, ih v List.mem_cons_self,
        ihRest fun u member => ih u (List.mem_cons_of_mem v member)]
      rfl
  | _ =>
    rw [leavesOf, List.map_singleton, List.flatten_singleton]
    · exact h.write_resolved
    · intro items same
      cases same

/-! ## Delays -/

mutual

/-- The value without any delay on the way to it. -/
def undelayed : Value → Value
  | .resolves _ name value => .resolves 0 name (undelayed value)
  | .placeholder kind value => .placeholder kind (undelayed value)
  | .deferred kind name future => .deferred kind name (undelayed future)
  | .array items => .array (undelayedAll items)
  | v => v

/-- The values without any delay on the way to them. -/
def undelayedAll : List Value → List Value
  | [] => []
  | v :: rest => undelayed v :: undelayedAll rest

end

theorem undelayedAll_eq_map (items : List Value) : undelayedAll items = items.map undelayed := by
  induction items with
  | nil => rfl
  | cons v rest ih => simp only [undelayedAll, List.map_cons, ih]

theorem isAsync_undelayed (v : Value) : isAsync (undelayed v) = isAsync v := by
  induction v using elementInduction with
  | array items ih =>
    rw [undelayed, undelayedAll_eq_map, isAsync, isAsync]
    exact anyAsync_map ih
  | _ => rfl

theorem undelayed_of_not_async {v : Value} (h : isAsync v = false) : undelayed v = v := by
  induction v using elementInduction with
  | array items ih =>
    have each := anyAsync_eq_false.mp h
    rw [undelayed, undelayedAll_eq_map]
    exact congrArg array
      ((List.map_congr_left fun v member => ih v member (each v member)).trans (List.map_id items))
  | resolves delay name value => cases h
  | placeholder kind value => cases h
  | deferred kind name future => cases h
  | _ => rfl

theorem anyAsync_undelayed (items : List Value) :
    anyAsync (items.map undelayed) = anyAsync items :=
  anyAsync_map fun v _ => isAsync_undelayed v

theorem resolved_undelayed (mode : Mode) (v : Value) :
    resolved options mode (undelayed v) = resolved options mode v := by
  induction v using elementInduction with
  | array items ih =>
    have elements : undelayed (array items) = array (items.map undelayed) := by
      rw [undelayed, undelayedAll_eq_map]
    rw [elements, resolved_array, resolved_array, anyAsync_undelayed, List.map_map]
    by_cases waits : anyAsync items
    · rw [if_pos waits, if_pos waits]
      exact congrArg array (List.map_congr_left ih)
    · rw [if_neg waits, if_neg waits, ← undelayedAll_eq_map]
      exact undelayed_of_not_async (v := array items) (by simpa [isAsync] using waits)
  | resolves delay name value ih => exact ih
  | placeholder kind value ih => exact congrArg (fun v => (Task.convertValue kind v).result) ih
  | deferred kind name future ih => exact congrArg (fun v => (Task.convertValue kind v).result) ih
  | _ => rfl

theorem replaced_undelayed (mode : Mode) (v : Value) :
    replaced options mode (undelayed v) = replaced options mode v := by
  induction v using elementInduction with
  | array items ih =>
    rw [undelayed, undelayedAll_eq_map, replaced, replacedAll_eq_map, replaced, replacedAll_eq_map,
      List.map_map]
    exact congrArg array (List.map_congr_left ih)
  | resolves delay name value ih => exact ih
  | placeholder kind value ih =>
    cases kind with
    | any => exact ih
    | _ => simp only [undelayed, replaced, resolved_undelayed]
  | deferred kind name future ih =>
    cases kind with
    | any => exact ih
    | _ => simp only [undelayed, replaced, resolved_undelayed]
  | _ => rfl

theorem fair_undelayed {mode : Mode} {v : Value} :
    Fair options mode (undelayed v) ↔ Fair options mode v := by
  constructor
  · intro h
    induction v using elementInduction with
    | array items ih =>
      rw [undelayed, undelayedAll_eq_map] at h
      exact .array fun v member => ih v member (h.elements _ (List.mem_map.mpr ⟨v, member, rfl⟩))
    | resolves delay name value ih =>
      cases h with
      | resolves inner => exact .resolves (ih inner)
      | base silent => cases silent
    | placeholder kind value ih =>
      cases h with
      | placeholder inner => exact .placeholder (ih inner)
      | base silent => cases silent
    | deferred kind name future ih =>
      cases h with
      | deferred inner => exact .deferred (ih inner)
      | base silent => cases silent
    | _ => exact h
  · intro h
    induction h with
    | base silent still => rw [undelayed_of_not_async silent]; exact .base silent still
    | resolves _ ih => exact .resolves ih
    | placeholder _ ih => exact .placeholder ih
    | deferred _ ih => exact .deferred ih
    | array _ ih =>
      rw [undelayed, undelayedAll_eq_map]
      refine .array fun v member => ?_
      obtain ⟨u, inside, rfl⟩ := List.mem_map.mp member
      exact ih u inside

end Value

end HtmlTemplate
