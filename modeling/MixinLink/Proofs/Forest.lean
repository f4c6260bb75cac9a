import MixinLink.Proofs.Nesting
import MixinLink.Table.Basic

/-!
# The forest of class entries

What is stored in a forest, said independently of the order in which a look-up goes through it, and what
changing an entry does to it. Changing an entry can only change the entry itself and add entries that
keep their names on the way to it; every other entry stays.

A property of all entries is kept by a change if the change keeps it for the entry, and the entries that
are added have it (`All.update`).

Main exports: `ClassForest.Stored`, `ClassForest.UniqueKeys`, `ClassForest.All`,
`ClassForest.entryAt?_update`, `ClassForest.All.update`, `Table.find?_update`.
-/

namespace MixinLink

namespace ClassForest

/-- An entry of a forest with what is nested in it, and the keys that lead to it. -/
inductive Stored : ClassForest → List String → ClassEntry → ClassForest → Prop where
  | here (key : String) (entry : ClassEntry) (inner rest : ClassForest) :
      Stored (cons key entry inner rest) [key] entry inner
  | inside {keys : List String} {found : ClassEntry} {below : ClassForest}
      (key : String) (entry : ClassEntry) {inner : ClassForest} (rest : ClassForest)
      (stored : Stored inner keys found below) :
      Stored (cons key entry inner rest) (key :: keys) found below
  | after {keys : List String} {found : ClassEntry} {below : ClassForest}
      (key : String) (entry : ClassEntry) (inner : ClassForest) {rest : ClassForest}
      (stored : Stored rest keys found below) :
      Stored (cons key entry inner rest) keys found below

/-- On every level, no two entries have the same key. -/
def UniqueKeys : ClassForest → Prop
  | nil => True
  | cons key _ inner rest => key ∉ rest.keys ∧ inner.UniqueKeys ∧ rest.UniqueKeys

/-- All entries have a property together with the keys that lead to them, which start with `outer`. -/
def All (property : List String → ClassEntry → Prop) (outer : List String) : ClassForest → Prop
  | nil => True
  | cons key entry inner rest =>
    property (outer ++ [key]) entry ∧ inner.All property (outer ++ [key]) ∧ rest.All property outer

instance All.decidable {property : List String → ClassEntry → Prop}
    [∀ keys entry, Decidable (property keys entry)] (outer : List String) :
    (forest : ClassForest) → Decidable (forest.All property outer)
  | nil => .isTrue trivial
  | cons key _ inner rest =>
    have : Decidable (inner.All property (outer ++ [key])) := All.decidable _ inner
    have : Decidable (rest.All property outer) := All.decidable _ rest
    inferInstanceAs (Decidable (_ ∧ _ ∧ _))

/-- The entry under a path of keys. -/
def entryAt? (forest : ClassForest) (keys : List String) : Option ClassEntry :=
  (forest.find? keys).map Prod.fst

/-! ## Stored entries and look-ups -/

/-- Every entry is stored under some path. -/
theorem Stored.keys_ne_nil {forest below : ClassForest} {keys : List String} {entry : ClassEntry}
    (stored : Stored forest keys entry below) : keys ≠ [] := by
  induction stored with
  | here => simp
  | inside => simp
  | after _ _ _ _ ih => exact ih

/-- The first key of a stored entry is a key of the first level. -/
theorem Stored.head_mem_keys {forest below : ClassForest} {key : String} {keys : List String}
    {entry : ClassEntry} (stored : Stored forest (key :: keys) entry below) : key ∈ forest.keys := by
  generalize whole : key :: keys = path at stored
  induction stored with
  | here =>
      cases whole
      simp [ClassForest.keys]
  | inside =>
      cases whole
      simp [ClassForest.keys]
  | after _ _ _ _ ih => exact List.mem_cons_of_mem _ (ih whole)

/-- Something is stored under each key. -/
theorem exists_stored_of_mem_keys {forest : ClassForest} {key : String} (isKey : key ∈ forest.keys) :
    ∃ entry below, Stored forest [key] entry below := by
  induction forest with
  | nil => simp [keys] at isKey
  | cons first entry inner rest _ restIh =>
      rcases List.mem_cons.1 isKey with rfl | later
      · exact ⟨entry, inner, .here key entry inner rest⟩
      · obtain ⟨found, below, stored⟩ := restIh later
        exact ⟨found, below, .after first entry inner stored⟩

/-- What is found is stored there. -/
theorem stored_of_find? {forest below : ClassForest} {keys : List String} {entry : ClassEntry}
    (found : forest.find? keys = some (entry, below)) : Stored forest keys entry below := by
  fun_induction find? forest keys with
  | case1 => simp at found
  | case2 => simp at found
  | case3 key entry inner rest =>
      cases found
      exact .here _ _ _ _
  | case4 key _ inner rest k ks ih => exact .inside _ _ _ (ih found)
  | case5 _ _ _ _ _ _ _ ih => exact .after _ _ _ (ih found)

/-- With unique keys, a look-up finds every stored entry. -/
theorem find?_of_stored {forest below : ClassForest} {keys : List String} {entry : ClassEntry}
    (unique : forest.UniqueKeys) (stored : Stored forest keys entry below) :
    forest.find? keys = some (entry, below) := by
  induction stored with
  | here => simp [find?]
  | @inside keys _ _ _ _ _ _ stored ih =>
      obtain ⟨_, innerUnique, _⟩ := unique
      cases keys with
      | nil => exact absurd rfl stored.keys_ne_nil
      | cons => simpa [find?] using ih innerUnique
  | @after keys _ _ key _ _ _ stored ih =>
      obtain ⟨new, _, restUnique⟩ := unique
      cases keys with
      | nil => exact absurd rfl stored.keys_ne_nil
      | cons first others =>
          have other : key ≠ first := by
            rintro rfl
            exact new stored.head_mem_keys
          simpa [find?, other] using ih restUnique

/-- A property of all entries, said by what is stored. -/
theorem all_iff_stored {property : List String → ClassEntry → Prop} {outer : List String}
    {forest : ClassForest} :
    forest.All property outer
      ↔ ∀ keys entry below, Stored forest keys entry below → property (outer ++ keys) entry := by
  constructor
  · intro all keys entry below stored
    induction stored generalizing outer with
    | here => exact all.1
    | inside _ _ _ _ ih => simpa using ih all.2.1
    | after _ _ _ _ ih => exact ih all.2.2
  · intro holds
    induction forest generalizing outer with
    | nil => trivial
    | cons key entry inner rest innerIh restIh =>
        refine ⟨holds _ _ _ (.here _ _ _ _), innerIh ?_, restIh ?_⟩
        · intro keys found below stored
          have whole := holds _ _ _ (.inside key entry rest stored)
          simpa using whole
        · intro keys found below stored
          exact holds _ _ _ (.after key entry inner stored)

/-- What holds of all entries holds of the one at a path. -/
theorem All.entryAt? {property : List String → ClassEntry → Prop} {forest : ClassForest}
    {keys : List String} {entry : ClassEntry} (all : forest.All property [])
    (found : forest.entryAt? keys = some entry) : property keys entry := by
  obtain ⟨⟨_, below⟩, looked, rfl⟩ := Option.map_eq_some_iff.1 found
  exact all_iff_stored.1 all _ _ _ (stored_of_find? looked)

@[simp]
private theorem entryAt?_nil (keys : List String) : nil.entryAt? keys = none := by
  simp [ClassForest.entryAt?, find?]

/-- No entry is at the empty path. -/
@[simp]
theorem entryAt?_empty_path (forest : ClassForest) : forest.entryAt? [] = none := by
  cases forest <;> simp [ClassForest.entryAt?, find?]

/-- A path with one key ends in this forest. -/
theorem entryAt?_cons_single (key k : String) (entry : ClassEntry) (inner rest : ClassForest) :
    (cons key entry inner rest).entryAt? [k] = if key = k then some entry else rest.entryAt? [k] := by
  by_cases same : key = k <;> simp [ClassForest.entryAt?, find?, same]

/-- A longer path goes on in the forest below its first key. -/
theorem entryAt?_cons_cons (key k next : String) (ks : List String) (entry : ClassEntry)
    (inner rest : ClassForest) :
    (cons key entry inner rest).entryAt? (k :: next :: ks)
      = if key = k then inner.entryAt? (next :: ks) else rest.entryAt? (k :: next :: ks) := by
  by_cases same : key = k <;> simp [ClassForest.entryAt?, find?, same]

/-! ## What a change does to look-ups -/

/-- The classes around a class that has an entry have entries. -/
theorem isSome_entryAt?_of_append {forest : ClassForest} {keys more : List String} (around : keys ≠ [])
    (found : (forest.entryAt? (keys ++ more)).isSome) : (forest.entryAt? keys).isSome := by
  induction forest generalizing keys with
  | nil => simp at found
  | cons key entry inner rest innerIh restIh =>
      match keys with
      | [] => exact absurd rfl around
      | [k] =>
          by_cases same : key = k
          · simp [entryAt?_cons_single, same]
          · rw [entryAt?_cons_single, if_neg same]
            apply restIh (by simp)
            cases more with
            | nil => simpa [entryAt?_cons_single, same] using found
            | cons m ms => simpa [entryAt?_cons_cons, same] using found
      | k :: next :: ks =>
          rw [List.cons_append, List.cons_append, entryAt?_cons_cons] at found
          rw [entryAt?_cons_cons]
          by_cases same : key = k
          · rw [if_pos same] at found ⊢
            exact innerIh (by simp) found
          · rw [if_neg same] at found ⊢
            exact restIh (by simp) found

/-- The entry that keeps its name under some keys, if these are the keys of a class on the trail. -/
def freshAt? : List (String × ClassName) → List String → Option ClassEntry
  | [], _ => none
  | _ :: _, [] => none
  | (key, name) :: _, [k] => if key = k then some (.fresh name key) else none
  | (key, _) :: trail, k :: next :: ks => if key = k then freshAt? trail (next :: ks) else none

private theorem entryAt?_chain (change : ClassEntry → ClassEntry) (trail : List (String × ClassName))
    (keys : List String) :
    (chain change trail).entryAt? keys
      = (freshAt? trail keys).map (if keys = trail.map Prod.fst then change else id) := by
  induction trail generalizing keys with
  | nil => simp [chain, freshAt?]
  | cons first rest ih =>
      obtain ⟨key, name⟩ := first
      rcases keys with _ | ⟨k, _ | ⟨next, ks⟩⟩
      · simp [freshAt?]
      · by_cases same : key = k
        · subst same
          cases rest <;> simp [chain, entryAt?_cons_single, freshAt?]
        · cases rest <;> simp [chain, entryAt?_cons_single, freshAt?, same]
      · cases rest with
        | nil => simp [chain, entryAt?_cons_cons, freshAt?]
        | cons second others =>
            by_cases same : key = k
            · subst same
              simp [chain, entryAt?_cons_cons, freshAt?, ih]
            · simp [chain, entryAt?_cons_cons, freshAt?, same]

/-- What stands under some keys after a change: what stood there before, or else the entry that was
added there on the way, changed if this is the end of the way. -/
theorem entryAt?_update (change : ClassEntry → ClassEntry) (trail : List (String × ClassName))
    (forest : ClassForest) (keys : List String) :
    (forest.update change trail).entryAt? keys
      = ((forest.entryAt? keys).or (freshAt? trail keys)).map
          (if keys = trail.map Prod.fst then change else id) := by
  induction forest generalizing trail keys with
  | nil => simp [update, entryAt?_chain]
  | cons key entry inner rest innerIh restIh =>
      rcases trail with _ | ⟨⟨k, name⟩, trail⟩
      · cases keys <;> simp [update, freshAt?]
      rcases keys with _ | ⟨k', _ | ⟨next, ks⟩⟩
      · simp [freshAt?]
      · by_cases here : key = k
        · subst here
          by_cases same : key = k'
          · subst same
            cases trail <;> simp [update, entryAt?_cons_single, freshAt?]
          · cases trail <;> simp [update, entryAt?_cons_single, freshAt?, same, Ne.symm same]
        · by_cases same : key = k'
          · subst same
            simp [update, here, Ne.symm here, entryAt?_cons_single, freshAt?]
          · simp [update, here, entryAt?_cons_single, same, restIh]
      · by_cases here : key = k
        · subst here
          by_cases same : key = k'
          · subst same
            cases trail with
            | nil => simp [update, entryAt?_cons_cons, freshAt?]
            | cons => simp [update, entryAt?_cons_cons, freshAt?, innerIh]
          · cases trail <;> simp [update, entryAt?_cons_cons, freshAt?, same, Ne.symm same]
        · by_cases same : key = k'
          · subst same
            simp [update, here, Ne.symm here, entryAt?_cons_cons, freshAt?]
          · simp [update, here, entryAt?_cons_cons, same, restIh]

/-- Changes that agree on the entry they are made to have the same effect. -/
theorem update_congr {change other : ClassEntry → ClassEntry} {trail : List (String × ClassName)}
    {forest : ClassForest}
    (agree : ∀ entry, (forest.entryAt? (trail.map Prod.fst)).or (freshAt? trail (trail.map Prod.fst))
      = some entry → change entry = other entry) :
    forest.update change trail = forest.update other trail := by
  induction forest generalizing trail with
  | nil =>
      simp only [entryAt?_nil, Option.none_or] at agree
      simp only [update]
      induction trail with
      | nil => rfl
      | cons first rest ih =>
          cases rest with
          | nil => simp [chain, agree (.fresh first.2 first.1) (by simp [freshAt?])]
          | cons second others =>
              simp only [chain, cons.injEq, true_and, and_true]
              refine ih fun entry found => agree entry ?_
              simpa [freshAt?] using found
  | cons key entry inner rest innerIh restIh =>
      rcases trail with _ | ⟨⟨k, name⟩, trail⟩
      · simp [update]
      by_cases here : key = k
      · subst here
        cases trail with
        | nil => simp [update, agree entry (by simp [entryAt?_cons_single])]
        | cons second others =>
            simp only [update, if_true, cons.injEq, true_and, and_true]
            refine innerIh fun entry found => agree entry ?_
            simpa [entryAt?_cons_cons, freshAt?] using found
      · simp only [update, here, if_false, cons.injEq, true_and]
        refine restIh fun entry found => agree entry ?_
        cases trail with
        | nil => simpa [entryAt?_cons_single, here] using found
        | cons => simpa [entryAt?_cons_cons, here] using found

/-- Two changes of the same entry are one. -/
theorem update_update (first second : ClassEntry → ClassEntry) (trail : List (String × ClassName))
    (forest : ClassForest) :
    (forest.update first trail).update second trail = forest.update (second ∘ first) trail := by
  induction forest generalizing trail with
  | nil =>
      simp only [update]
      induction trail with
      | nil => rfl
      | cons step trail ih =>
          cases trail with
          | nil => simp [chain, update]
          | cons next trail => simpa [chain, update] using ih
  | cons key entry inner rest innerIh restIh =>
      rcases trail with _ | ⟨⟨k, name⟩, trail⟩
      · simp [update]
      by_cases here : key = k
      · cases trail with
        | nil => simp [update, here]
        | cons => simp [update, here, innerIh]
      · simp [update, here, restIh]

/-! ## What a change keeps -/

private theorem mem_keys_update {change : ClassEntry → ClassEntry} {k key : String} {name : ClassName}
    {trail : List (String × ClassName)} {forest : ClassForest} :
    key ∈ (forest.update change ((k, name) :: trail)).keys ↔ key ∈ forest.keys ∨ key = k := by
  induction forest with
  | nil => cases trail <;> simp [update, chain, keys]
  | cons first entry inner rest _ restIh =>
      by_cases here : first = k
      · subst here
        cases trail <;> simp [update, keys] <;> exact fun same => .inl same
      · simp [update, here, keys, restIh, or_assoc]

private theorem uniqueKeys_chain (change : ClassEntry → ClassEntry) (trail : List (String × ClassName)) :
    (chain change trail).UniqueKeys := by
  induction trail with
  | nil => trivial
  | cons first rest ih =>
      cases rest with
      | nil => simp [chain, UniqueKeys, keys]
      | cons => simpa [chain, UniqueKeys, keys] using ih

/-- Changing an entry keeps the keys apart. -/
theorem UniqueKeys.update {change : ClassEntry → ClassEntry} {trail : List (String × ClassName)}
    {forest : ClassForest} (unique : forest.UniqueKeys) : (forest.update change trail).UniqueKeys := by
  induction forest generalizing trail with
  | nil => simpa [ClassForest.update] using uniqueKeys_chain change trail
  | cons key entry inner rest innerIh restIh =>
      obtain ⟨new, innerUnique, restUnique⟩ := unique
      rcases trail with _ | ⟨⟨k, name⟩, trail⟩
      · exact ⟨new, innerUnique, restUnique⟩
      by_cases here : key = k
      · cases trail with
        | nil => simpa [ClassForest.update, here, UniqueKeys] using ⟨here ▸ new, innerUnique, restUnique⟩
        | cons =>
            simp only [ClassForest.update, here, if_true]
            exact ⟨here ▸ new, innerIh innerUnique, restUnique⟩
      · simp only [ClassForest.update, here, if_false]
        refine ⟨?_, innerUnique, restIh restUnique⟩
        rw [mem_keys_update]
        rintro (old | same)
        · exact new old
        · exact here same

private theorem all_chain {property : List String → ClassEntry → Prop} {change : ClassEntry → ClassEntry}
    {trail : List (String × ClassName)} {outer : List String}
    (fresh : ∀ before key name after, trail = before ++ (key, name) :: after →
      property (outer ++ before.map Prod.fst ++ [key]) (.fresh name key))
    (kept : ∀ entry, property (outer ++ trail.map Prod.fst) entry →
      property (outer ++ trail.map Prod.fst) (change entry)) :
    (chain change trail).All property outer := by
  induction trail generalizing outer with
  | nil => trivial
  | cons first rest ih =>
      obtain ⟨key, name⟩ := first
      have own := fresh [] key name rest rfl
      simp only [List.map_nil, List.append_nil] at own
      cases rest with
      | nil => exact ⟨kept _ own, trivial, trivial⟩
      | cons second others =>
          refine ⟨own, ih ?_ ?_, trivial⟩
          · intro before key' name' after split
            have later := fresh ((key, name) :: before) key' name' after (by rw [split]; rfl)
            simpa using later
          · intro entry holds
            simpa using kept entry (by simpa using holds)

/-- A property of all entries stays, if the change keeps it and the entries that are added have it. -/
theorem All.update {property : List String → ClassEntry → Prop} {change : ClassEntry → ClassEntry}
    {trail : List (String × ClassName)} {outer : List String} {forest : ClassForest}
    (all : forest.All property outer)
    (fresh : ∀ before key name after, trail = before ++ (key, name) :: after →
      property (outer ++ before.map Prod.fst ++ [key]) (.fresh name key))
    (kept : ∀ entry, property (outer ++ trail.map Prod.fst) entry →
      property (outer ++ trail.map Prod.fst) (change entry)) :
    (forest.update change trail).All property outer := by
  induction forest generalizing outer trail with
  | nil => simpa [ClassForest.update] using all_chain fresh kept
  | cons key entry inner rest innerIh restIh =>
      obtain ⟨own, innerAll, restAll⟩ := all
      rcases trail with _ | ⟨⟨k, name⟩, trail⟩
      · exact ⟨own, innerAll, restAll⟩
      by_cases here : key = k
      · subst here
        cases trail with
        | nil =>
            simp only [ClassForest.update, if_true]
            exact ⟨kept entry own, innerAll, restAll⟩
        | cons second others =>
            simp only [ClassForest.update, if_true]
            refine ⟨own, innerIh innerAll ?_ ?_, restAll⟩
            · intro before key' name' after split
              have later := fresh ((key, name) :: before) key' name' after (by rw [split]; rfl)
              simpa using later
            · intro entry holds
              simpa using kept entry (by simpa using holds)
      · simp only [ClassForest.update, here, if_false]
        exact ⟨own, innerAll, restIh restAll fresh kept⟩

/-! ## Entries on the trail to a class -/

private theorem freshAt?_append (before after : List (String × ClassName)) (key : String)
    (name : ClassName) :
    freshAt? (before ++ (key, name) :: after) (before.map Prod.fst ++ [key])
      = some (.fresh name key) := by
  induction before with
  | nil => simp [freshAt?]
  | cons first rest ih =>
      cases rest with
      | nil => simp [freshAt?]
      | cons => simpa [freshAt?] using ih

private theorem prefix_of_freshAt? {trail : List (String × ClassName)} {keys : List String}
    {entry : ClassEntry} (found : freshAt? trail keys = some entry) : keys <+: trail.map Prod.fst := by
  fun_induction freshAt? trail keys with
  | case1 => simp at found
  | case2 => simp at found
  | case3 => simp
  | case4 => simp at found
  | case5 _ trail next ks _ ih => simpa using ih found
  | case6 => simp at found

/-- On the way to a class, the entries that are added are those of the classes around it. -/
theorem freshAt?_trail (whole name : ClassName) :
    freshAt? whole.trail name.path
      = if name.path <+: whole.path then some (.fresh name name.key) else none := by
  by_cases around : name.path <+: whole.path
  · rw [if_pos around]
    obtain ⟨rest, paths⟩ := around
    rw [eq_comm, ← ClassName.keys_trail whole, List.map_eq_append_iff] at paths
    obtain ⟨upTo, after, split, keys, _⟩ := paths
    have nonempty : upTo ≠ [] := by
      rintro rfl
      exact name.path_ne_nil keys.symm
    rw [← List.dropLast_concat_getLast nonempty, List.append_assoc, List.singleton_append] at split
    have samePath := ClassName.path_of_trail split
    have sameKey := ClassName.key_of_trail split
    have paths : (upTo.getLast nonempty).2.path = name.path := by
      rw [samePath, ← keys, ← List.map_singleton, ← List.map_append,
        List.dropLast_concat_getLast]
    rw [split, ← paths, samePath, freshAt?_append, sameKey, ClassName.path_injective paths]
  · rw [if_neg around]
    cases found : freshAt? whole.trail name.path with
    | none => rfl
    | some =>
        have around' := prefix_of_freshAt? found
        rw [ClassName.keys_trail] at around'
        exact absurd around' around

end ClassForest

namespace Table

/-- The entry of a class is the one at its path. -/
theorem find?_eq_entryAt? (table : Table) (name : ClassName) :
    table.find? name = table.classes.entryAt? name.path := rfl

/-- The entry of a class after the entry of some class was changed. -/
theorem find?_update (table : Table) (name other : ClassName) (change : ClassEntry → ClassEntry) :
    (table.update name change).find? other
      = ((table.find? other).or
          (if other.path <+: name.path then some (.fresh other other.key) else none)).map
          (if other = name then change else id) := by
  have samePath : (other.path = name.trail.map Prod.fst) = (other = name) := by
    rw [ClassName.keys_trail]
    exact propext ⟨ClassName.path_injective, fun same => same ▸ rfl⟩
  simp only [find?_eq_entryAt?, update, ClassForest.entryAt?_update, ClassForest.freshAt?_trail, samePath]

/-- The entry that a class has. -/
theorem entryOf_of_find? {table : Table} {name : ClassName} {entry : ClassEntry}
    (found : table.find? name = some entry) : table.entryOf name = entry := by
  rw [entryOf, found, Option.getD_some]

/-- What an entry that keeps the name does not have can be asked of the entry that a class has or would
get. -/
theorem bind_find?_eq_entryOf {β : Type} (table : Table) (name : ClassName)
    {tell : ClassEntry → Option β} (empty : tell (.fresh name name.key) = none) :
    (table.find? name).bind tell = tell (table.entryOf name) := by
  rw [entryOf]
  cases table.find? name with
  | none => exact empty.symm
  | some entry => rfl

/-- The changed entry of a class. -/
theorem find?_update_self (table : Table) (name : ClassName) (change : ClassEntry → ClassEntry) :
    (table.update name change).find? name = some (change (table.entryOf name)) := by
  cases found : table.find? name <;> simp [find?_update, entryOf, found]

/-- The entries that are added on the way to a changed one make no difference. -/
theorem entryOf_update (table : Table) (name other : ClassName) (change : ClassEntry → ClassEntry) :
    (table.update name change).entryOf other
      = if other = name then change (table.entryOf name) else table.entryOf other := by
  by_cases same : other = name
  · rw [if_pos same, same, entryOf, find?_update_self, Option.getD_some]
  · rw [if_neg same, entryOf, entryOf, find?_update, if_neg same, Option.map_id]
    cases table.find? other with
    | some entry => rfl
    | none => by_cases around : other.path <+: name.path <;> simp [around]

/-- Changing a class that has an entry adds no entry. -/
theorem find?_update_of_isSome {table : Table} {name : ClassName} (present : (table.find? name).isSome)
    (other : ClassName) (change : ClassEntry → ClassEntry) :
    (table.update name change).find? other
      = (table.find? other).map (if other = name then change else id) := by
  rw [find?_update]
  by_cases around : other.path <+: name.path
  · obtain ⟨more, whole⟩ := around
    rw [find?_eq_entryAt?, ← whole] at present
    obtain ⟨entry, found⟩ := Option.isSome_iff_exists.1
      (ClassForest.isSome_entryAt?_of_append (ClassName.path_ne_nil other) present)
    rw [← find?_eq_entryAt?] at found
    simp [found]
  · rw [if_neg around, Option.or_none]

/-- Two changes of one entry are one change. -/
theorem update_update (table : Table) (name : ClassName) (first second : ClassEntry → ClassEntry) :
    (table.update name first).update name second = table.update name (second ∘ first) := by
  simp only [update, ClassForest.update_update]

/-- Changes that agree on the entry of a class have the same effect. -/
theorem update_congr {table : Table} {name : ClassName} {change other : ClassEntry → ClassEntry}
    (agree : change (table.entryOf name) = other (table.entryOf name)) :
    table.update name change = table.update name other := by
  rw [update, update, ClassForest.update_congr]
  intro entry found
  rw [ClassName.keys_trail, ← find?_eq_entryAt?, ClassForest.freshAt?_trail,
    if_pos (List.prefix_refl _)] at found
  have isEntry : table.entryOf name = entry := by
    rw [entryOf]
    cases old : table.find? name with
    | none => simpa [old] using found
    | some known => simpa [old] using found
  rwa [isEntry] at agree

end Table

end MixinLink
