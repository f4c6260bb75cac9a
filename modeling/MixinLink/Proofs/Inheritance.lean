import MixinLink.Proofs.Completion
import MixinLink.Proofs.Evolution
import MixinLink.Proofs.Resolution

/-!
# Names of inherited methods

A class gets the methods that it inherits when its entry is completed, once, with the names that they
have at that moment. From then on the entry of a class that no remapped class declares stays as it is:
the ancestor may be given another name for the method, and the entry does not follow.

Main exports: `Hierarchy.inheritedFrom?`, `Table.Untouched`, `Table.Untouched.method?_complete`,
`Change.undeclared`, `Table.frozen_of_evolves`, `CompletesAt`, `Table.Untouched.evolves`, `Settles`,
`Table.Untouched.settles`.
-/

namespace MixinLink

open Relation (ReflTransGen)

/-- The nearest ancestor of a class that declares a method for the classes below it. -/
def Hierarchy.inheritedFrom? (hierarchy : Hierarchy) (heir : ClassName) (signature : MethodSignature) :
    Option ClassName :=
  (hierarchy.ancestors heir).find? (signature ∈ Table.declaredMethods hierarchy false ·)

/-- The ancestors of a class from a given one on. -/
def Hierarchy.ancestorsFrom (hierarchy : Hierarchy) (heir owner : ClassName) : List ClassName :=
  (hierarchy.ancestors heir).dropWhile (· ≠ owner)

/-- The nearest declaring ancestor divides the ancestors: none before it declares the method. -/
theorem Hierarchy.split_of_inheritedFrom? {hierarchy : Hierarchy} {heir owner : ClassName}
    {signature : MethodSignature} (inherited : hierarchy.inheritedFrom? heir signature = some owner) :
    ∃ before above, hierarchy.ancestors heir = before ++ owner :: above
      ∧ hierarchy.ancestorsFrom heir owner = owner :: above
      ∧ signature ∈ Table.declaredMethods hierarchy false owner
      ∧ ∀ other ∈ before, signature ∉ Table.declaredMethods hierarchy false other := by
  obtain ⟨declares, before, above, ancestors, earlier⟩ := List.find?_eq_some_iff_append.1 inherited
  have declared : signature ∈ Table.declaredMethods hierarchy false owner := by simpa using declares
  have undeclared : ∀ other ∈ before, signature ∉ Table.declaredMethods hierarchy false other := by
    intro other member
    simpa using earlier other member
  have different : ∀ other ∈ before, decide (other ≠ owner) = true := by
    intro other member
    rw [decide_eq_true_eq]
    rintro rfl
    exact undeclared other member declared
  refine ⟨before, above, ancestors, ?_, declared, undeclared⟩
  rw [ancestorsFrom, ancestors, List.dropWhile_append_of_pos different,
    List.dropWhile_cons_of_neg (by simp)]

/-- A class with ancestors is known. -/
theorem Hierarchy.find?_of_inheritedFrom? {hierarchy : Hierarchy} {heir owner : ClassName}
    {signature : MethodSignature} (inherited : hierarchy.inheritedFrom? heir signature = some owner) :
    (hierarchy.find? heir).isSome = true := by
  rw [Option.isSome_iff_ne_none]
  intro unknown
  have lineage := Table.lineage_of_unknown unknown
  have noAncestors : hierarchy.ancestors heir = [] := (List.cons.inj lineage).2
  rw [inheritedFrom?, noAncestors] at inherited
  cases inherited

namespace Table

variable {table : Table} {hierarchy : Hierarchy} {heir owner : ClassName} {signature : MethodSignature}

/-! ## What completing gives -/

/-- The name of an inherited method is the one that its nearest declaring ancestor has. -/
theorem nearestMethodName_of_method? {named : MethodName}
    (inherited : hierarchy.inheritedFrom? heir signature = some owner)
    (isNamed : table.method? owner signature = some ⟨signature, named⟩) :
    table.nearestMethodName (hierarchy.ancestorsFrom heir owner) signature = named := by
  obtain ⟨_, above, _, lineage, _⟩ := Hierarchy.split_of_inheritedFrom? inherited
  obtain ⟨entry, present, inEntry⟩ := Option.bind_eq_some_iff.1 isNamed
  simp [nearestMethodName, lineage, present, inEntry]

/-- An inherited method is completed with the name that its nearest declaring ancestor has for it, or the
next class above that has one. -/
theorem find?_inheritedMethods (own : signature ∉ declaredMethods hierarchy true heir)
    (inherited : hierarchy.inheritedFrom? heir signature = some owner) :
    Assoc.find? signature (table.inheritedMethods hierarchy heir)
      = some (table.nearestMethodName (hierarchy.ancestorsFrom heir owner) signature) := by
  obtain ⟨before, above, ancestors, lineage, declared, undeclared⟩ :=
    Hierarchy.split_of_inheritedFrom? inherited
  have first : ∀ earlier < before.length + 1,
      ¬DeclaredAt (declaredMethods hierarchy) true (hierarchy.lineage heir) earlier signature := by
    intro earlier below
    cases earlier with
    | zero => exact mt declaredAt_zero.1 own
    | succ earlier =>
        intro isDeclared
        obtain ⟨other, atEarlier, declares⟩ := declaredAt_succ.1 isDeclared
        have early := Nat.lt_of_succ_lt_succ below
        rw [ancestors, List.getElem?_append_left early] at atEarlier
        exact undeclared other (List.mem_of_getElem? atEarlier) declares
  have here : DeclaredAt (declaredMethods hierarchy) true (hierarchy.lineage heir) (before.length + 1)
      signature := by
    apply declaredAt_succ.2
    exact ⟨owner, by simp [ancestors], declared⟩
  rw [inheritedMethods, collectMethods_eq_collect, find?_collect_of_first here first rfl, Hierarchy.lineage,
    List.drop_succ_cons, ancestors, List.drop_left, lineage]

/-- The entry of a class is not completed and has no name for a method. -/
structure Untouched (table : Table) (heir : ClassName) (signature : MethodSignature) : Prop where
  todo : table.isCompleted heir = false
  unnamed : table.method? heir signature = none

/-- Completing a class completes it. -/
theorem isCompleted_complete (hierarchy : Hierarchy) (name : ClassName) :
    (table.complete hierarchy name).value.isCompleted name = true := by
  rw [complete_value]
  split
  · assumption
  · rw [isCompleted, find?_update_self]
    rfl

/-- A completed class is not completed again. -/
theorem complete_of_completed {name : ClassName} (completed : table.isCompleted name = true) :
    (table.complete hierarchy name).value = table := by
  rw [complete_value, if_pos completed]

/-- Completing an untouched class names what it inherits. -/
theorem Untouched.method?_complete (untouched : table.Untouched heir signature)
    (own : signature ∉ declaredMethods hierarchy true heir)
    (inherited : hierarchy.inheritedFrom? heir signature = some owner) :
    (table.complete hierarchy heir).value.method? heir signature
      = some ⟨signature, table.nearestMethodName (hierarchy.ancestorsFrom heir owner) signature⟩ := by
  have absent : Assoc.find? signature (table.entryOf heir).methods = none := by
    have unnamed := untouched.unnamed
    rw [method?, table.bind_find?_eq_entryOf heir rfl] at unnamed
    exact unnamed
  rw [method?, find?_complete_self untouched.todo, Option.bind_some, ClassEntry.method?,
    ClassEntry.completeWith, find?_append_missing, absent, Option.none_or,
    find?_inheritedMethods own inherited]
  rfl

/-! ## Changes of other classes -/

variable {name other : ClassName}

/-- Changing a class completes no other. -/
theorem isCompleted_update_of_ne (different : other ≠ name) (change : ClassEntry → ClassEntry) :
    (table.update name change).isCompleted other = table.isCompleted other := by
  unfold isCompleted
  rw [find?_update, if_neg different]
  cases table.find? other with
  | some entry => rfl
  | none =>
      by_cases around : other.path <+: name.path
      · simp [around, ClassEntry.fresh]
      · simp [around]

/-- Changing a class leaves the methods of the others. -/
theorem method?_update_of_ne (different : other ≠ name) (change : ClassEntry → ClassEntry)
    (signature : MethodSignature) :
    (table.update name change).method? other signature = table.method? other signature := by
  unfold method?
  rw [find?_update, if_neg different]
  cases table.find? other with
  | some entry => rfl
  | none =>
      by_cases around : other.path <+: name.path
      · simp [around, ClassEntry.fresh, ClassEntry.method?, Assoc.find?]
      · simp [around]

/-- Looking up a field completes no class. -/
theorem isCompleted_resolveField (owner : ClassName) (field : FieldSignature) :
    (table.resolveField owner field).2.isCompleted other = table.isCompleted other := by
  unfold isCompleted
  rw [find?_resolveField]
  cases table.find? other with
  | none => rfl
  | some entry =>
      simp only [Option.map_some]
      split
      · rcases entry.resolveField_adds field with same | ⟨_, _, added⟩
        · rw [same]
        · rw [added]
      · rfl

end Table

/-! ## What remapping does to a class that is not declared -/

section Undeclared

variable {hierarchy : Hierarchy} {decls : List ClassDecl} {before after : Table} {heir owner : ClassName}
  {signature : MethodSignature}

/-- One change leaves the methods of a class alone that is not declared, unless it completes the class. -/
theorem Change.undeclared (undeclared : ∀ decl ∈ decls, decl.name ≠ heir)
    (step : Change hierarchy decls before after) :
    (after.isCompleted heir = before.isCompleted heir
        ∧ ∀ signature, after.method? heir signature = before.method? heir signature)
      ∨ after = (before.complete hierarchy heir).value := by
  cases step with
  | complete name =>
      by_cases same : heir = name
      · exact .inr (same ▸ rfl)
      · left
        rw [Table.complete_value]
        split
        · exact ⟨rfl, fun _ => rfl⟩
        · exact ⟨Table.isCompleted_update_of_ne same _, Table.method?_update_of_ne same _⟩
  | lookUp owner field =>
      exact .inl ⟨Table.isCompleted_resolveField owner field, before.method?_resolveField owner field heir⟩
  | @nameField decl _ _ _ _ _ declared =>
      have different := (undeclared decl declared).symm
      exact .inl ⟨Table.isCompleted_update_of_ne different _, Table.method?_update_of_ne different _⟩
  | @nameMethod decl _ _ _ _ _ declared =>
      have different := (undeclared decl declared).symm
      exact .inl ⟨Table.isCompleted_update_of_ne different _, Table.method?_update_of_ne different _⟩
  | @nameAccessor decl _ _ _ _ declared =>
      have different := (undeclared decl declared).symm
      exact .inl ⟨Table.isCompleted_update_of_ne different _, Table.method?_update_of_ne different _⟩

/-- Once completed, a class that is not declared keeps its methods and their names. -/
theorem Table.frozen_of_evolves (undeclared : ∀ decl ∈ decls, decl.name ≠ heir)
    (completed : before.isCompleted heir = true) (changes : Evolves hierarchy decls before after) :
    after.isCompleted heir = true
      ∧ ∀ signature, after.method? heir signature = before.method? heir signature := by
  induction changes with
  | refl => exact ⟨completed, fun _ => rfl⟩
  | tail _ last ih =>
      obtain ⟨still, names⟩ := ih
      rcases last.undeclared undeclared with ⟨sameFlag, sameNames⟩ | completes
      · exact ⟨sameFlag.trans still, fun signature => (sameNames signature).trans (names signature)⟩
      · rw [Table.complete_of_completed still] at completes
        rw [completes]
        exact ⟨still, names⟩

/-- Changes complete a class at a table in between, and go on from there. -/
structure CompletesAt (hierarchy : Hierarchy) (decls : List ClassDecl) (heir : ClassName)
    (before moment after : Table) : Prop where
  reached : Evolves hierarchy decls before moment
  todo : moment.isCompleted heir = false
  left : Evolves hierarchy decls (moment.complete hierarchy heir).value after

/-- A class that is not declared stays untouched until it is completed. Then it has the name for an
inherited method that its ancestors have at that moment. -/
theorem Table.Untouched.evolves (undeclared : ∀ decl ∈ decls, decl.name ≠ heir)
    (own : signature ∉ Table.declaredMethods hierarchy true heir)
    (inherited : hierarchy.inheritedFrom? heir signature = some owner)
    (untouched : before.Untouched heir signature) (changes : Evolves hierarchy decls before after) :
    after.Untouched heir signature
      ∨ after.isCompleted heir = true ∧ ∃ moment, CompletesAt hierarchy decls heir before moment after
        ∧ after.method? heir signature
          = some ⟨signature, moment.nearestMethodName (hierarchy.ancestorsFrom heir owner) signature⟩ := by
  induction changes with
  | refl => exact .inl untouched
  | @tail now later earlier last ih =>
      rcases ih with still | ⟨completed, moment, completes, hasName⟩
      · rcases last.undeclared undeclared with ⟨sameFlag, sameNames⟩ | rfl
        · exact .inl ⟨sameFlag.trans still.todo, (sameNames signature).trans still.unnamed⟩
        · right
          refine ⟨Table.isCompleted_complete hierarchy heir, now, ⟨earlier, still.todo, .refl⟩, ?_⟩
          exact still.method?_complete own inherited
      · obtain ⟨stillCompleted, frozen⟩ := Table.frozen_of_evolves undeclared completed (.single last)
        right
        refine ⟨stillCompleted, moment, ⟨completes.reached, completes.todo, completes.left.tail last⟩, ?_⟩
        rw [frozen, hasName]

/-- Changes after each of which a class has the same name for a method. -/
abbrev Settles (hierarchy : Hierarchy) (decls : List ClassDecl) (owner : ClassName)
    (signature : MethodSignature) (named : MethodName) : Table → Table → Prop :=
  ReflTransGen fun before after =>
    Change hierarchy decls before after ∧ after.method? owner signature = some ⟨signature, named⟩

/-- While its ancestor keeps the name of a method, an untouched class can only be completed with that
name. -/
theorem Table.Untouched.settles {named : MethodName} (undeclared : ∀ decl ∈ decls, decl.name ≠ heir)
    (own : signature ∉ Table.declaredMethods hierarchy true heir)
    (inherited : hierarchy.inheritedFrom? heir signature = some owner)
    (untouched : before.Untouched heir signature)
    (isNamed : before.method? owner signature = some ⟨signature, named⟩)
    (settled : Settles hierarchy decls owner signature named before after) :
    (after.complete hierarchy heir).value.method? heir signature = some ⟨signature, named⟩ := by
  -- at every table on the way the class is untouched, or completed with the name
  have onTheWay : after.method? owner signature = some ⟨signature, named⟩
      ∧ (after.Untouched heir signature
        ∨ after.isCompleted heir = true
          ∧ after.method? heir signature = some ⟨signature, named⟩) := by
    induction settled with
    | refl => exact ⟨isNamed, .inl untouched⟩
    | tail _ last ih =>
        obtain ⟨change, isNamedAfter⟩ := last
        obtain ⟨isNamedBefore, state⟩ := ih
        refine ⟨isNamedAfter, ?_⟩
        rcases state with still | ⟨completed, hasName⟩
        · rcases change.undeclared undeclared with ⟨sameFlag, sameNames⟩ | rfl
          · exact .inl ⟨sameFlag.trans still.todo, (sameNames signature).trans still.unnamed⟩
          · right
            refine ⟨Table.isCompleted_complete hierarchy heir, ?_⟩
            rw [still.method?_complete own inherited,
              Table.nearestMethodName_of_method? inherited isNamedBefore]
        · obtain ⟨stillCompleted, frozen⟩ := Table.frozen_of_evolves undeclared completed (.single change)
          exact .inr ⟨stillCompleted, (frozen signature).trans hasName⟩
  obtain ⟨isNamedAfter, still | ⟨completed, hasName⟩⟩ := onTheWay
  · rw [still.method?_complete own inherited, Table.nearestMethodName_of_method? inherited isNamedAfter]
  · rw [Table.complete_of_completed completed]
    exact hasName

end Undeclared

end MixinLink
