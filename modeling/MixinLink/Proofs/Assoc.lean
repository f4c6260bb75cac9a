import Mathlib.Data.List.Nodup
import Mathlib.Data.List.Perm.Basic
import MixinLink.Table.Assoc

/-!
# Insertion-ordered maps as maps

A list of entries in which no key stands twice is a map: it is determined by its look-ups up to the
order of the entries. The operations on such lists keep their keys apart, and what they keep true of the
changed entry they keep true of all.

Main exports: `Assoc.Unique`, `Assoc.find?_eq_some_iff_mem`, `Assoc.perm_of_find?_eq`, `Assoc.All`,
`Assoc.All.upsert`.
-/

namespace MixinLink.Assoc

variable {κ ν : Type} [DecidableEq κ]

/-- No key stands twice. -/
def Unique (entries : List (κ × ν)) : Prop :=
  (entries.map Prod.fst).Nodup

omit [DecidableEq κ] in
/-- No key occurs twice among no entries. -/
theorem unique_nil : Unique ([] : List (κ × ν)) := by
  simp [Unique]

/-- What is found is among the entries. -/
theorem mem_of_find? {key : κ} {value : ν} {entries : List (κ × ν)}
    (found : find? key entries = some value) : (key, value) ∈ entries := by
  induction entries with
  | nil => simp [find?] at found
  | cons entry rest ih =>
      by_cases here : entry.1 = key
      · simp only [find?, here, if_true, Option.some.injEq] at found
        subst here found
        exact List.mem_cons_self
      · simp only [find?, here, if_false] at found
        exact List.mem_cons_of_mem _ (ih found)

/-- Nothing is found for a key that is not there. -/
theorem find?_eq_none {key : κ} {entries : List (κ × ν)} :
    find? key entries = none ↔ key ∉ entries.map Prod.fst := by
  induction entries with
  | nil => simp [find?]
  | cons entry rest ih =>
      by_cases here : entry.1 = key
      · simp [find?, here]
      · rw [find?, if_neg here, ih, List.map_cons, List.mem_cons, not_or]
        exact ⟨fun absent => ⟨Ne.symm here, absent⟩, And.right⟩

/-- A key is contained if it is there. -/
theorem contains_eq_true {key : κ} {entries : List (κ × ν)} :
    contains key entries = true ↔ key ∈ entries.map Prod.fst := by
  rw [contains, Option.isSome_iff_ne_none, ne_eq, find?_eq_none, not_not]

/-- With unique keys, a look-up finds every entry. -/
theorem find?_eq_some_iff_mem {key : κ} {value : ν} {entries : List (κ × ν)} (unique : Unique entries) :
    find? key entries = some value ↔ (key, value) ∈ entries := by
  refine ⟨mem_of_find?, fun member => ?_⟩
  induction entries with
  | nil => simp at member
  | cons entry rest ih =>
      rw [Unique, List.map_cons, List.nodup_cons] at unique
      rcases List.mem_cons.1 member with rfl | later
      · simp [find?]
      · have other : entry.1 ≠ key := by
          rintro rfl
          exact unique.1 (List.mem_map.2 ⟨_, later, rfl⟩)
        rw [find?, if_neg other]
        exact ih unique.2 later

/-- Two maps with the same look-ups have the same entries. -/
theorem perm_of_find?_eq {first second : List (κ × ν)} (firstUnique : Unique first)
    (secondUnique : Unique second) (same : ∀ key, find? key first = find? key second) :
    first.Perm second := by
  refine (List.perm_ext_iff_of_nodup firstUnique.of_map secondUnique.of_map).2 fun entry => ?_
  rw [← find?_eq_some_iff_mem firstUnique, ← find?_eq_some_iff_mem secondUnique, same]

private theorem keys_upsert (key : κ) (start : ν) (change : ν → ν) (entries : List (κ × ν)) :
    (upsert key start change entries).map Prod.fst
      = if key ∈ entries.map Prod.fst then entries.map Prod.fst else entries.map Prod.fst ++ [key] := by
  induction entries with
  | nil => simp [upsert]
  | cons entry rest ih =>
      by_cases here : entry.1 = key
      · simp [upsert, here]
      · by_cases later : key ∈ rest.map Prod.fst
        · simp [upsert, here, ih, later, Ne.symm here]
        · simp [upsert, here, ih, later, Ne.symm here]

/-- Changing or adding one entry keeps the keys apart. -/
theorem Unique.upsert {entries : List (κ × ν)} (unique : Unique entries) (key : κ) (start : ν)
    (change : ν → ν) : Unique (upsert key start change entries) := by
  rw [Unique, keys_upsert]
  split
  · exact unique
  · rename_i new
    refine List.nodup_append.2 ⟨unique, by simp, ?_⟩
    intro old member added isKey
    rw [List.mem_singleton.1 isKey]
    rintro rfl
    exact new member

/-- More entries with other keys keep the keys apart. -/
theorem Unique.append {entries more : List (κ × ν)} (unique : Unique entries) (moreUnique : Unique more)
    (apart : ∀ entry ∈ more, contains entry.1 entries = false) : Unique (entries ++ more) := by
  rw [Unique, List.map_append]
  refine List.nodup_append.2 ⟨unique, moreUnique, ?_⟩
  intro old oldMember added addedMember same
  obtain ⟨entry, member, rfl⟩ := List.mem_map.1 addedMember
  have fresh := apart entry member
  rw [← Bool.not_eq_true, contains_eq_true] at fresh
  exact fresh (same ▸ oldMember)

omit [DecidableEq κ] in
/-- Leaving entries out keeps the keys apart. -/
theorem Unique.filter {entries : List (κ × ν)} (unique : Unique entries) (keep : κ × ν → Bool) :
    Unique (entries.filter keep) :=
  List.Nodup.sublist (List.filter_sublist.map Prod.fst) unique

/-- Adding an entry with a new key keeps the keys apart. -/
theorem Unique.addNew {entries : List (κ × ν)} (unique : Unique entries) (key : κ) (value : ν) :
    Unique (addNew key value entries) := by
  unfold Assoc.addNew
  split
  · exact unique
  · rename_i new
    refine unique.append (by simp [Unique]) fun entry member => ?_
    rw [List.mem_singleton.1 member]
    simpa using new

/-! ## What holds of all entries -/

/-- Every key and its value are related. -/
def All (property : κ → ν → Prop) (entries : List (κ × ν)) : Prop :=
  ∀ entry ∈ entries, property entry.1 entry.2

variable {property : κ → ν → Prop} {entries : List (κ × ν)}

omit [DecidableEq κ] in
/-- Anything holds of no entries. -/
theorem all_nil : All property [] :=
  fun _ member => absurd member List.not_mem_nil

omit [DecidableEq κ] in
/-- What holds of some entries and of others holds of all of them. -/
theorem All.append {more : List (κ × ν)} (all : All property entries) (moreAll : All property more) :
    All property (entries ++ more) :=
  fun entry member => (List.mem_append.1 member).elim (all entry) (moreAll entry)

/-- What holds of all entries holds of the one that is found. -/
theorem All.of_find? (all : All property entries) {key : κ} {value : ν}
    (found : find? key entries = some value) : property key value :=
  all (key, value) (mem_of_find? found)

/-- Changing the value of a key is only about that key. -/
theorem All.upsert {key : κ} {start : ν} {change : ν → ν} (all : All property entries)
    (added : property key (change start)) (changed : ∀ old, property key old → property key (change old)) :
    All property (upsert key start change entries) := by
  induction entries with
  | nil => exact List.forall_mem_singleton.2 added
  | cons entry rest ih =>
      obtain ⟨here, later⟩ := List.forall_mem_cons.1 all
      by_cases same : entry.1 = key
      · rw [Assoc.upsert, if_pos same]
        exact List.forall_mem_cons.2 ⟨same ▸ changed _ (same ▸ here), later⟩
      · rw [Assoc.upsert, if_neg same]
        exact List.forall_mem_cons.2 ⟨here, ih later⟩

end MixinLink.Assoc
