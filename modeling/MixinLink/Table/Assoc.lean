/-!
# Insertion-ordered maps

A map from keys to values as the list of its entries, in the order in which the keys were added. A key
is added at the end; changing the value of a key leaves it where it is.

Main exports: `Assoc.find?`, `Assoc.upsert`, `Assoc.addNew`, and the lemmas that say what each
operation does to a look-up.
-/

namespace MixinLink.Assoc

variable {κ ν : Type} [DecidableEq κ]

/-- The value of a key. -/
def find? (key : κ) : List (κ × ν) → Option ν
  | [] => none
  | entry :: rest => if entry.1 = key then some entry.2 else find? key rest

/-- The key has a value. -/
def contains (key : κ) (entries : List (κ × ν)) : Bool :=
  (find? key entries).isSome

/-- Changes the value of a key; a key without value gets the changed `start`, at the end. -/
def upsert (key : κ) (start : ν) (change : ν → ν) : List (κ × ν) → List (κ × ν)
  | [] => [(key, change start)]
  | entry :: rest =>
    if entry.1 = key then (entry.1, change entry.2) :: rest
    else entry :: upsert key start change rest

/-- Adds a key at the end, unless it has a value already. -/
def addNew (key : κ) (value : ν) (entries : List (κ × ν)) : List (κ × ν) :=
  if contains key entries then entries else entries ++ [(key, value)]

/-- Only the entry of this key is changed or added. -/
theorem find?_upsert (key other : κ) (start : ν) (change : ν → ν) (entries : List (κ × ν)) :
    find? other (upsert key start change entries) =
      if key = other then some (change ((find? key entries).getD start)) else find? other entries := by
  induction entries with
  | nil => simp [upsert, find?]
  | cons entry rest ih =>
    by_cases here : entry.1 = key
    · by_cases same : key = other
      · simp [upsert, find?, here, same]
      · simp [upsert, find?, here, same]
    · by_cases same : key = other
      · subst same
        simp [upsert, find?, here, ih]
      · by_cases there : entry.1 = other
        · simp [upsert, find?, there, same, Ne.symm same]
        · simp [upsert, find?, here, there, same, ih]

/-- Entries that come first are found first. -/
theorem find?_append (key : κ) (entries more : List (κ × ν)) :
    find? key (entries ++ more) = (find? key entries).or (find? key more) := by
  induction entries with
  | nil => simp [find?]
  | cons entry rest ih =>
    by_cases here : entry.1 = key
    · simp [find?, here]
    · simp [find?, here, ih]

/-- An entry is added only if its key is new. -/
theorem find?_addNew (key other : κ) (value : ν) (entries : List (κ × ν)) :
    find? other (addNew key value entries) =
      if key = other then some ((find? key entries).getD value) else find? other entries := by
  unfold addNew contains
  cases present : find? key entries with
  | none =>
    by_cases same : key = other
    · subst same
      simp [find?_append, present, find?]
    · simp [find?_append, find?, same]
  | some old =>
    by_cases same : key = other
    · subst same
      simp [present]
    · simp [same]

end MixinLink.Assoc
