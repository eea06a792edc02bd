import HtmlTemplate.Text.Basic

/-!
# Entries in order of insertion

Lists of values with text keys. A key that is put again keeps its place and takes the new value.
-/

namespace HtmlTemplate

namespace Entries

variable {α : Type}

/-- Adds an entry: a new key goes to the end, a known key keeps its place. -/
def put (key : Text) (value : α) : List (Text × α) → List (Text × α)
  | [] => [(key, value)]
  | (k, v) :: rest => if k = key then (k, value) :: rest else (k, v) :: put key value rest

/-- Puts entries one after the other. -/
def ofList (entries : List (Text × α)) : List (Text × α) :=
  entries.foldl (fun known (key, value) => put key value known) []

/-- The value under a key. -/
def get? (key : Text) : List (Text × α) → Option α
  | [] => none
  | (k, v) :: rest => if k = key then some v else get? key rest

/-- The keys in order. -/
def keys (entries : List (Text × α)) : List Text := entries.map Prod.fst

/-- A key that was put has the value that was put. -/
theorem get?_put_self (key : Text) (value : α) (entries : List (Text × α)) :
    get? key (put key value entries) = some value := by
  induction entries with
  | nil => simp [put, get?]
  | cons entry rest ih =>
    obtain ⟨k, v⟩ := entry
    by_cases h : k = key
    · simp [put, get?, h]
    · simp [put, get?, h, ih]

/-- Putting a key leaves the values of the others. -/
theorem get?_put_of_ne {key other : Text} (value : α) (entries : List (Text × α))
    (h : other ≠ key) : get? other (put key value entries) = get? other entries := by
  induction entries with
  | nil => simp [put, get?, Ne.symm h]
  | cons entry rest ih =>
    obtain ⟨k, v⟩ := entry
    by_cases hk : k = key
    · simp [put, get?, hk, Ne.symm h]
    · simp [put, get?, hk, ih]

end Entries

end HtmlTemplate
