import HtmlTemplate.Proofs.Value.Resolved

/-!
# What is told of resolving a value

The notes that are made of a value from the moment somebody asks for it to the moment it is there,
when everything on the way settles (`Value.told`): of every future that settles, of every producer
that is called, in content of every component and every object that is replaced, and of what
placeholders make of their values. They are listed one after the other; values that are waited for
side by side make theirs in an order of their own.
-/

namespace HtmlTemplate

variable {options : Options}

namespace Value

mutual

/-- What is told of resolving a value, given what is told of an object in content and what replaces
it. -/
def toldWith (object : List (Text × Value) → List Note) (replacement : List (Text × Value) → Value)
    (content : Bool) : Value → List Note
  | .resolves _ name value => .settled name :: toldWith object replacement content value
  | .rejects _ name _ => [.settled name]
  | .placeholder kind value =>
    toldWith object replacement content value ++
      (Task.convertValue kind (resolveWith replacement content value)).notes
  | .deferred kind name future =>
    .called name :: (toldWith object replacement content future ++
      (Task.convertValue kind (resolveWith replacement content future)).notes)
  | .array items => if anyAsync items then toldAllWith object replacement content items else []
  | .component name body =>
    if content then .rendered name :: toldWith object replacement content body else []
  | .object entries => if content then object entries else []
  | _ => []

/-- What is told of resolving values. -/
def toldAllWith (object : List (Text × Value) → List Note)
    (replacement : List (Text × Value) → Value) (content : Bool) : List Value → List Note
  | [] => []
  | v :: rest =>
    toldWith object replacement content v ++ toldAllWith object replacement content rest

end

/-- What is told of resolving an object in content that may be replaced `expansions` times. -/
def toldObject (options : Options) : Nat → List (Text × Value) → List Note
  | 0, _ => []
  | expansions + 1, entries =>
    match options.transform? entries with
    | some transformed =>
      transformed.notes ++
        toldWith (toldObject options expansions) (resolveObject options expansions) true
          transformed.result
    | none => []

/-- What is told of resolving a value. -/
def told (options : Options) (mode : Mode) (value : Value) : List Note :=
  toldWith (toldObject options mode.expansions) (resolveObject options mode.expansions) mode.content
    value

theorem toldAllWith_eq_flatMap (object : List (Text × Value) → List Note)
    (replacement : List (Text × Value) → Value) (content : Bool) (items : List Value) :
    toldAllWith object replacement content items =
      items.flatMap (toldWith object replacement content) := by
  induction items with
  | nil => rfl
  | cons v rest ih => rw [toldAllWith, List.flatMap_cons, ih]

theorem told_array (mode : Mode) (items : List Value) :
    told options mode (array items) =
      if anyAsync items then items.flatMap (told options mode) else [] := by
  rw [told, toldWith, toldAllWith_eq_flatMap]
  rfl

theorem told_component {mode : Mode} (content : mode.content = true) (name : Option Text)
    (body : Value) :
    told options mode (component name body) = .rendered name :: told options mode body := by
  rw [told, toldWith, if_pos content]
  rfl

theorem told_transformed {n : Nat} {entries : List (Text × Value)} {transformed : Noted Value}
    (found : options.transform? entries = some transformed) :
    told options ⟨true, n + 1⟩ (object entries) =
      transformed.notes ++ told options ⟨true, n⟩ transformed.result := by
  simp only [told, toldWith, toldObject, found, if_true]

theorem told_unmatched {n : Nat} {entries : List (Text × Value)}
    (none : options.transform? entries = none) : told options ⟨true, n⟩ (object entries) = [] := by
  cases n with
  | zero => rfl
  | succ n => simp only [told, toldWith, toldObject, none, if_true]

end Value

end HtmlTemplate
