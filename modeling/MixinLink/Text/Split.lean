/-!
# Splitting text

Small operations on texts seen as lists of characters: cutting at the first or the last occurrence of
a character, cutting at every occurrence, removing a known beginning, and cutting before a marker.
The lemmas beside them say that nothing is lost.

Main exports: `Text.splitFirst?`, `Text.splitLast?`, `Text.segments`, `Text.dropLead?`,
`Text.beforeMarker`.
-/

namespace MixinLink.Text

/-- The text before and after the first occurrence of a character. -/
def splitFirst? (sep : Char) : List Char → Option (List Char × List Char)
  | [] => none
  | c :: rest =>
    if c = sep then some ([], rest)
    else (splitFirst? sep rest).map fun parts => (c :: parts.1, parts.2)

/-- The text before and after the last occurrence of a character. -/
def splitLast? (sep : Char) : List Char → Option (List Char × List Char)
  | [] => none
  | c :: rest =>
    match splitLast? sep rest with
    | some parts => some (c :: parts.1, parts.2)
    | none => if c = sep then some ([], rest) else none

/-- The pieces between the occurrences of a character. There is always at least one. -/
def segments (sep : Char) : List Char → List (List Char)
  | [] => [[]]
  | c :: rest =>
    if c = sep then [] :: segments sep rest
    else
      match segments sep rest with
      | [] => [[c]]
      | piece :: pieces => (c :: piece) :: pieces

/-- What follows a known beginning of the text, if the text has that beginning. -/
def dropLead? : List Char → List Char → Option (List Char)
  | [], text => some text
  | _ :: _, [] => none
  | l :: lead, c :: text => if l = c then dropLead? lead text else none

/-- The text before the first occurrence of the marker, or all of it if there is none. -/
def beforeMarker (marker : List Char) : List Char → List Char
  | [] => []
  | c :: rest =>
    if (dropLead? marker (c :: rest)).isSome then [] else c :: beforeMarker marker rest

/-- Replaces every occurrence of one character by another. -/
def replaceChar (old new : Char) (text : List Char) : List Char :=
  text.map fun c => if c = old then new else c

/-- The text is split at the first separator. -/
theorem splitFirst?_eq_some {sep : Char} {text before after : List Char}
    (found : splitFirst? sep text = some (before, after)) :
    text = before ++ sep :: after ∧ sep ∉ before := by
  induction text generalizing before with
  | nil => simp [splitFirst?] at found
  | cons c rest ih =>
    by_cases same : c = sep
    · simp only [splitFirst?, same, ite_true, Option.some.injEq, Prod.mk.injEq] at found
      obtain ⟨rfl, rfl⟩ := found
      simp [same]
    · simp only [splitFirst?, same, ite_false, Option.map_eq_some_iff] at found
      obtain ⟨⟨b, a⟩, inner, pair⟩ := found
      simp only [Prod.mk.injEq] at pair
      obtain ⟨rfl, rfl⟩ := pair
      obtain ⟨split, absent⟩ := ih inner
      exact ⟨by rw [split, List.cons_append], by simp [absent, Ne.symm same]⟩

/-- A text without the separator is not split. -/
theorem splitFirst?_eq_none {sep : Char} {text : List Char} :
    splitFirst? sep text = none ↔ sep ∉ text := by
  induction text with
  | nil => simp [splitFirst?]
  | cons c rest ih =>
    by_cases same : c = sep
    · simp [splitFirst?, same]
    · simp [splitFirst?, same, ih, Ne.symm same]

/-- A separator that comes first is where the text is split. -/
theorem splitFirst?_append {sep : Char} {before : List Char} (after : List Char)
    (absent : sep ∉ before) :
    splitFirst? sep (before ++ sep :: after) = some (before, after) := by
  induction before with
  | nil => simp [splitFirst?]
  | cons c rest ih =>
    simp only [List.mem_cons, not_or] at absent
    simp [splitFirst?, Ne.symm absent.1, ih absent.2]

/-- A text without the separator is not split. -/
theorem splitLast?_eq_none {sep : Char} {text : List Char} :
    splitLast? sep text = none ↔ sep ∉ text := by
  induction text with
  | nil => simp [splitLast?]
  | cons c rest ih =>
    cases rec : splitLast? sep rest with
    | none =>
      by_cases same : c = sep
      · simp [splitLast?, rec, same]
      · simp [splitLast?, rec, same, ih.1 rec, Ne.symm same]
    | some parts =>
      have present : sep ∈ rest := by
        refine Decidable.byContradiction fun absent => ?_
        simp [ih.2 absent] at rec
      simp [splitLast?, rec, present]

/-- The text is split at the last separator. -/
theorem splitLast?_eq_some {sep : Char} {text before after : List Char}
    (found : splitLast? sep text = some (before, after)) :
    text = before ++ sep :: after ∧ sep ∉ after := by
  induction text generalizing before with
  | nil => simp [splitLast?] at found
  | cons c rest ih =>
    cases rec : splitLast? sep rest with
    | none =>
      have absent := splitLast?_eq_none.1 rec
      by_cases same : c = sep
      · simp only [splitLast?, rec, same, ite_true, Option.some.injEq, Prod.mk.injEq] at found
        obtain ⟨rfl, rfl⟩ := found
        simp [same, absent]
      · simp [splitLast?, rec, same] at found
    | some parts =>
      simp only [splitLast?, rec, Option.some.injEq, Prod.mk.injEq] at found
      obtain ⟨rfl, rfl⟩ := found
      obtain ⟨split, absent⟩ := ih rec
      exact ⟨by rw [List.cons_append, ← split], absent⟩

/-- A separator that comes last is where the text is split. -/
theorem splitLast?_append {sep : Char} (before : List Char) {after : List Char}
    (absent : sep ∉ after) :
    splitLast? sep (before ++ sep :: after) = some (before, after) := by
  induction before with
  | nil => simp [splitLast?, splitLast?_eq_none.2 absent]
  | cons c rest ih => simp [splitLast?, ih]

/-- A text without the separator is one segment. -/
theorem segments_of_not_mem {sep : Char} {text : List Char} (absent : sep ∉ text) :
    segments sep text = [text] := by
  induction text with
  | nil => rfl
  | cons c rest ih =>
    simp only [List.mem_cons, not_or] at absent
    simp [segments, Ne.symm absent.1, ih absent.2]

/-- There is always a segment. -/
theorem segments_ne_nil (sep : Char) (text : List Char) : segments sep text ≠ [] := by
  cases text with
  | nil => simp [segments]
  | cons c rest =>
    by_cases same : c = sep
    · simp [segments, same]
    · simp only [segments, same, ite_false]
      split <;> simp

/-- The segments on both sides of a separator are those of the whole. -/
theorem segments_append (sep : Char) (before after : List Char) :
    segments sep (before ++ sep :: after) = segments sep before ++ segments sep after := by
  induction before with
  | nil => simp [segments]
  | cons c rest ih =>
    by_cases same : c = sep
    · simp [segments, same, ih]
    · simp only [List.cons_append, segments, same, ite_false, ih]
      cases inner : segments sep rest with
      | nil => exact absurd inner (segments_ne_nil sep rest)
      | cons piece pieces => simp

/-- A lead is dropped if the text starts with it. -/
theorem dropLead?_eq_some {lead text rest : List Char} :
    dropLead? lead text = some rest ↔ text = lead ++ rest := by
  induction lead generalizing text with
  | nil => simp [dropLead?]
  | cons l lead ih =>
    cases text with
    | nil => simp [dropLead?]
    | cons c text =>
      by_cases same : l = c
      · simp [dropLead?, same, ih]
      · simp [dropLead?, same, Ne.symm same]

end MixinLink.Text
