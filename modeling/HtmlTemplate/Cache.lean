import HtmlTemplate.Journal
import HtmlTemplate.Skeleton
import HtmlTemplate.Template.Basic

/-!
# The template cache

A skeleton is compiled at most once with success: its template is kept under its number. A failed
compile stores nothing, so that the next call tries again. The cache does not keep skeletons alive;
`purge` removes what belongs to skeletons that live no more.
-/

namespace HtmlTemplate

/-- A template that is kept; its number tells which compile made it. -/
structure StoredTemplate where
  serial : Nat
  template : Template
  deriving DecidableEq

/-- What the cache knows of one skeleton. -/
structure CacheEntry where
  id : Nat
  stored : Option StoredTemplate
  deriving DecidableEq

/-- Compiled templates by the numbers of their skeletons. -/
structure Cache where
  entries : List CacheEntry
  /-- How many compiles were begun. -/
  compiles : Nat
  deriving DecidableEq

namespace Cache

/-- A compile of a skeleton. -/
abbrev Compile := Skeleton → Noted (Except CompileError Template)

/-- The cache that holds nothing. -/
def empty : Cache := ⟨[], 0⟩

/-- The template that is kept for a skeleton. -/
def find? (cache : Cache) (id : Nat) : Option StoredTemplate :=
  (cache.entries.find? fun entry => entry.id == id).bind CacheEntry.stored

/-- Adds an entry for a skeleton, without a template, unless there is one. -/
def enter (cache : Cache) (id : Nat) : Cache :=
  if cache.entries.any fun entry => entry.id == id then cache
  else { cache with entries := cache.entries ++ [⟨id, none⟩] }

/-- Keeps a template in the entry of its skeleton. -/
def store (cache : Cache) (id : Nat) (stored : StoredTemplate) : Cache :=
  { cache with
    entries := cache.entries.map fun entry =>
      if entry.id = id then { entry with stored := some stored } else entry }

/-- The template of a skeleton: the one that is kept, or else the result of a compile. -/
def getOrCompile (cache : Cache) (skeleton : Skeleton) (compile : Compile) :
    Noted (Except CompileError StoredTemplate × Cache) := do
  let cache := cache.enter skeleton.id
  match cache.find? skeleton.id with
  | some stored => do
    .note .cacheHit
    pure (.ok stored, cache)
  | none => do
    .note (.compileBegins skeleton.slotCount)
    let cache := { cache with compiles := cache.compiles + 1 }
    match ← compile skeleton with
    | .error error => pure (.error error, cache)
    | .ok template =>
      let stored : StoredTemplate := ⟨cache.compiles, template⟩
      pure (.ok stored, cache.store skeleton.id stored)

/-- The number of templates that are kept. -/
def size (cache : Cache) : Nat := cache.entries.countP fun entry => entry.stored.isSome

/-- Whether no template is kept. -/
def isEmpty (cache : Cache) : Bool := !cache.entries.any fun entry => entry.stored.isSome

/-- Removes the entries of skeletons that live no more, and tells how many there were. -/
def purge (cache : Cache) (skeletons : Skeletons) : Noted (Nat × Cache) := do
  let kept := cache.entries.filter fun entry => skeletons.isAlive entry.id
  let count := cache.entries.length - kept.length
  if count = 0 then pure (0, cache)
  else do
    .note (.purged count)
    pure (count, { cache with entries := kept })

@[simp] theorem compiles_enter (cache : Cache) (id : Nat) :
    (cache.enter id).compiles = cache.compiles := by
  unfold enter
  split <;> rfl

@[simp] theorem compiles_store (cache : Cache) (id : Nat) (stored : StoredTemplate) :
    (cache.store id stored).compiles = cache.compiles := rfl

/-- A cache is empty when it keeps no template. -/
theorem isEmpty_iff_size_eq_zero (cache : Cache) : cache.isEmpty = true ↔ cache.size = 0 := by
  simp [isEmpty, size, List.countP_eq_zero]

end Cache

end HtmlTemplate
