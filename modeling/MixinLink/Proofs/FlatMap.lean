import MixinLink.Proofs.FieldLookup
import MixinLink.Proofs.NestedNames

/-!
# The table as a map from full names

The entries of nested classes are stored inside of those around them, but a table reads like a map from the
full names of classes to their own entries. Changing the entry of a class, which is made first if it is
missing, leaves all other entries as they are. It adds an entry only for the class itself and for the
classes that enclose it, which then keep their names.

Main exports: `ClassName.Encloses`, `ClassName.encloses_iff`, `Table.KeepsOthers`,
`Table.keepsOthers_update`, `Table.access?_eq`, `Table.reads_as_map`.
-/

namespace MixinLink

/-! ## Enclosing classes -/

namespace ClassName

/-- The class stands somewhere around another one. -/
def Encloses : ClassName → ClassName → Prop :=
  Relation.TransGen fun outer inner => inner.parent? = some outer

/-- The class around has a path without the last key. -/
theorem parent?_eq_some {name parent : ClassName} :
    name.parent? = some parent ↔ name.path = parent.path ++ [name.key] := by
  constructor
  · exact path_of_parent?
  · intro path
    have nested : name.isInner = true := by
      rw [isInner_iff_length_path, path, List.length_append]
      exact Nat.lt_add_of_pos_left (List.length_pos_iff.2 parent.path_ne_nil)
    obtain ⟨around, isParent⟩ := exists_parent? nested
    have samePath := (path_of_parent? isParent).symm.trans path
    rw [isParent, path_injective (List.append_cancel_right samePath)]

private theorem Encloses.prefix_and_shorter {outer inner : ClassName} (encloses : outer.Encloses inner) :
    outer.path <+: inner.path ∧ outer.path.length < inner.path.length := by
  induction encloses with
  | single parent =>
      rw [parent?_eq_some.1 parent]
      simp
  | tail _ parent ih =>
      rw [parent?_eq_some.1 parent]
      constructor
      · exact ih.1.trans (List.prefix_append _ _)
      · rw [List.length_append]
        exact Nat.lt_add_right _ ih.2

/-- The classes around a class are those on the way to it. -/
theorem encloses_iff {outer inner : ClassName} :
    outer.Encloses inner ↔ outer.path <+: inner.path ∧ outer ≠ inner := by
  constructor
  · intro encloses
    obtain ⟨isPrefix, shorter⟩ := encloses.prefix_and_shorter
    exact ⟨isPrefix, fun same => absurd shorter (same ▸ Nat.lt_irrefl _)⟩
  · intro onTheWay
    obtain ⟨isPrefix, different⟩ := onTheWay
    induction inner using nestedInduction with
    | top inner path =>
        rw [path] at isPrefix
        have same := isPrefix.eq_of_length_le (List.length_pos_iff.2 outer.path_ne_nil)
        exact absurd (path_injective (same.trans path.symm)) different
    | nested parent inner path ih =>
        have isParent := parent?_eq_some.2 path
        rw [path, List.prefix_concat_iff] at isPrefix
        rcases isPrefix with same | around
        · exact absurd (path_injective (same.trans path.symm)) different
        · by_cases direct : outer = parent
          · exact .single (direct ▸ isParent)
          · exact .tail (ih around direct) isParent

end ClassName

/-! ## Taking hold of an entry -/

/-- Access along a path is finding the entry and changing it. -/
theorem ClassForest.access?_eq {α : Type} (use : ClassEntry → α × ClassEntry)
    (trail : List (String × ClassName)) (forest : ClassForest) :
    forest.access? use (trail.map Prod.fst)
      = (forest.entryAt? (trail.map Prod.fst)).map fun entry =>
          ((use entry).1, forest.update (fun entry => (use entry).2) trail) := by
  induction forest generalizing trail with
  | nil => simp [access?]
  | cons key entry inner rest innerIh restIh =>
      rcases trail with _ | ⟨⟨k, name⟩, _ | ⟨next, trail⟩⟩
      · simp [access?]
      · have later := restIh [(k, name)]
        by_cases same : key = k
        · simp [access?, entryAt?_cons_single, update, same]
        · simp only [List.map_cons, List.map_nil] at later
          simp [access?, entryAt?_cons_single, update, same, later, Function.comp_def]
      · have inside := innerIh (next :: trail)
        have later := restIh ((k, name) :: next :: trail)
        simp only [List.map_cons] at inside later
        by_cases same : key = k
        · simp [access?, entryAt?_cons_cons, update, same, inside, Function.comp_def]
        · simp [access?, entryAt?_cons_cons, update, same, later, Function.comp_def]

namespace Table

/-- Taking hold of an entry is looking it up and then changing it. -/
theorem access?_eq {α : Type} (table : Table) (name : ClassName) (use : ClassEntry → α × ClassEntry) :
    table.access? name use
      = (table.find? name).map fun entry =>
          ((use entry).1, table.update name fun entry => (use entry).2) := by
  have whole := ClassForest.access?_eq use name.trail table.classes
  rw [ClassName.keys_trail] at whole
  rw [access?, whole, find?_eq_entryAt?, Option.map_map]
  rfl

/-- Looking up a field with partial knowledge takes hold of the entry of its class. -/
theorem resolveField_eq_access? (table : Table) (owner : ClassName) (signature : FieldSignature) :
    table.resolveField owner signature
      = (table.access? owner (·.resolveField signature)).getD (none, table) := by
  rw [access?_eq, resolveField]
  cases table.find? owner with
  | none => rfl
  | some entry => rfl

/-! ## The entries after a change -/

/-- What the entries of the other classes are after the entry of one class was made or changed. -/
structure KeepsOthers (table : Table) (name : ClassName) (after : Table) : Prop where
  /-- The entries of other classes stay. -/
  kept : ∀ other entry, other ≠ name → table.find? other = some entry → after.find? other = some entry
  /-- Classes around it have entries now, which keep their names. -/
  added : ∀ other, table.find? other = none → other.Encloses name →
    after.find? other = some (.fresh other other.key)
  /-- Other classes that had no entry have none. -/
  absent : ∀ other, other ≠ name → table.find? other = none → ¬other.Encloses name →
    after.find? other = none

/-- A change of one class keeps the entries of all others. -/
theorem keepsOthers_update (table : Table) (name : ClassName) (change : ClassEntry → ClassEntry) :
    table.KeepsOthers name (table.update name change) where
  kept := by
    intro other entry different found
    rw [find?_update, found, if_neg different]
    rfl
  added := by
    intro other missing encloses
    obtain ⟨isPrefix, different⟩ := ClassName.encloses_iff.1 encloses
    rw [find?_update, missing, if_pos isPrefix, if_neg different]
    rfl
  absent := by
    intro other different missing outside
    have notOnTheWay : ¬other.path <+: name.path :=
      fun isPrefix => outside (ClassName.encloses_iff.2 ⟨isPrefix, different⟩)
    rw [find?_update, missing, if_neg notOnTheWay]
    rfl

/-- A table reads like a map from full names to entries. Making the entry of a class and changing it changes
that entry only, next to adding entries for classes around it; whoever then takes hold of the entry has the
changed one, as the look-up of a field does; and an entry that was made is not made again. -/
theorem reads_as_map (table : Table) (name : ClassName) (change : ClassEntry → ClassEntry) :
    (table.update name change).find? name = some (change (table.entryOf name))
      ∧ table.KeepsOthers name (table.update name change)
      ∧ (∀ {α : Type} (use : ClassEntry → α × ClassEntry),
        (table.update name change).access? name use
          = some ((use (change (table.entryOf name))).1,
            table.update name fun entry => (use (change entry)).2))
      ∧ (∀ signature, (table.update name change).resolveField name signature
          = (((change (table.entryOf name)).resolveField signature).1,
            table.update name fun entry => ((change entry).resolveField signature).2))
      ∧ (table.update name id).update name change = table.update name change
      ∧ (table.update name id).update name id = table.update name id := by
  have own : (table.update name change).find? name = some (change (table.entryOf name)) :=
    table.find?_update_self name change
  have accessed {α : Type} (use : ClassEntry → α × ClassEntry) :
      (table.update name change).access? name use
        = some ((use (change (table.entryOf name))).1,
          table.update name fun entry => (use (change entry)).2) := by
    rw [access?_eq, own, update_update]
    rfl
  have lookedUp (signature : FieldSignature) :
      (table.update name change).resolveField name signature
        = (((change (table.entryOf name)).resolveField signature).1,
          table.update name fun entry => ((change entry).resolveField signature).2) := by
    rw [resolveField_eq_access?, accessed, Option.getD_some]
  have created (change : ClassEntry → ClassEntry) :
      (table.update name id).update name change = table.update name change :=
    update_update table name id change
  exact ⟨own, table.keepsOthers_update name change, accessed, lookedUp, created change, created id⟩

end Table

end MixinLink
