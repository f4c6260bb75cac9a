import Mathlib.Logic.Relation
import MixinLink.Linkage
import MixinLink.Proofs.Soundness

/-!
# The changes that remapping makes to a table

Remapping changes the table in a few ways only: it completes classes, looks up fields, and gives names
to the declared members of mixins. A name that it gives is made from the name of the member itself and
the mapped name of some member of the table. All these changes keep a table sound.

Main exports: `Table.MapsMember`, `LooksUp`, `Change`, `Evolves`, `Table.Sound.evolves`.
-/

namespace MixinLink

open Relation (ReflTransGen)

/-! ## Mapped names in a table -/

/-- Some class has a member of a name, mapped to another name. -/
def Table.MapsMember (table : Table) (name mapped : String) : Prop :=
  ∃ owner entry, table.find? owner = some entry
    ∧ ((∃ field ∈ entry.fields, field.1.name.text = name ∧ field.2.mapped.text = mapped)
      ∨ ∃ method ∈ entry.methods, method.1.name.text = name ∧ method.2.mapped.text = mapped)

/-- Members of one name are mapped to different names. -/
def Table.Disagrees (table : Table) : Prop :=
  ∃ name first second, first ≠ second ∧ table.MapsMember name first ∧ table.MapsMember name second

/-- One look-up of a field. -/
def LooksUp (before after : Table) : Prop :=
  ∃ owner signature, after = (before.resolveField owner signature).2

private theorem ClassEntry.mem_resolveField {entry : ClassEntry} {field : FieldSignature × FieldMapping}
    (member : field ∈ entry.fields) (signature : FieldSignature) :
    field ∈ (entry.resolveField signature).2.fields := by
  rcases entry.resolveField_adds signature with same | ⟨mapped, _, added⟩
  · rw [same]
    exact member
  · rw [added]
    exact List.mem_append_left _ member

namespace Table

variable {table before after : Table} {name mapped : String} {owner : ClassName}

/-- A look-up removes nothing. -/
theorem MapsMember.looksUp (maps : before.MapsMember name mapped) (step : LooksUp before after) :
    after.MapsMember name mapped := by
  obtain ⟨looked, signature, rfl⟩ := step
  obtain ⟨owner, entry, found, member⟩ := maps
  refine ⟨owner, if owner = looked then (entry.resolveField signature).2 else entry, ?_, ?_⟩
  · rw [find?_resolveField, found, Option.map_some]
  · split
    · rw [ClassEntry.methods_resolveField]
      refine member.imp_left ?_
      rintro ⟨field, isField, names⟩
      exact ⟨field, ClassEntry.mem_resolveField isField signature, names⟩
    · exact member

/-- Nor do several look-ups. -/
theorem MapsMember.looksUps (maps : before.MapsMember name mapped)
    (steps : ReflTransGen LooksUp before after) : after.MapsMember name mapped := by
  induction steps with
  | refl => exact maps
  | tail _ last ih => exact ih.looksUp last

/-- In a sound table, what a look-up finds is the mapped name of a field of that name. -/
theorem mapsMember_of_resolveField (sound : table.Sound) {signature : FieldSignature}
    {mapping : FieldMapping} (found : (table.resolveField owner signature).1 = some mapping) :
    table.MapsMember signature.name.text mapping.mapped.text := by
  cases present : table.find? owner with
  | none => simp [resolveField, present] at found
  | some entry =>
      have inEntry : (entry.resolveField signature).1 = some mapping := by
        simpa [resolveField, present] using found
      obtain ⟨field, member, named, mapped⟩ :=
        ClassEntry.resolveField_maps (sound.soundAt present).members.fields inEntry
      exact ⟨owner, entry, present, .inl ⟨field, member, congrArg FieldName.text named, congrArg _ mapped⟩⟩

/-- A method that is found is mapped. -/
theorem mapsMember_of_method? {signature : MethodSignature} {mapping : MethodMapping}
    (found : table.method? owner signature = some mapping) :
    table.MapsMember signature.name.text mapping.mapped.text := by
  obtain ⟨entry, present, stored⟩ := Option.bind_eq_some_iff.1 found
  exact ⟨owner, entry, present, .inr ⟨_, Assoc.mem_of_find? stored, rfl, rfl⟩⟩

end Table

/-! ## The changes -/

/-- The method has an annotation that makes accessors. -/
def MethodDecl.IsMarkedAccessor (method : MethodDecl) : Prop :=
  ∃ mark ∈ method.annotations,
    mark.name = AnnotationName.accessor ∨ mark.name = AnnotationName.invoker

/-- One change that remapping some classes makes to the table. A member with the lead of its linkage,
which may be empty, stands for the member with the rest of the name; an accessor stands for the member
that its name tells. -/
inductive Change (hierarchy : Hierarchy) (decls : List ClassDecl) : Table → Table → Prop where
  | complete (table : Table) (name : ClassName) :
      Change hierarchy decls table (table.complete hierarchy name).value
  | lookUp (table : Table) (owner : ClassName) (signature : FieldSignature) :
      Change hierarchy decls table (table.resolveField owner signature).2
  | nameField {table : Table} {decl : ClassDecl} {field : FieldDecl} {lead name mapped : String}
      {named : FieldName} (declared : decl ∈ decls) (member : field ∈ decl.fields)
      (maps : table.MapsMember name mapped) (own : field.name.text = lead ++ name)
      (given : named.text = lead ++ mapped) :
      Change hierarchy decls table (table.update decl.name (·.mapField field.signature named))
  | nameMethod {table : Table} {decl : ClassDecl} {method : MethodDecl} {lead name mapped : String}
      {named : MethodName} (declared : decl ∈ decls) (member : method ∈ decl.methods)
      (maps : table.MapsMember name mapped) (own : method.name.text = lead ++ name)
      (given : named.text = lead ++ mapped) :
      Change hierarchy decls table (table.update decl.name (·.mapMethod method.signature named))
  | nameAccessor {table : Table} {decl : ClassDecl} {method : MethodDecl} {accessor : AccessorName}
      {mapped : String} {named : MethodName} (declared : decl ∈ decls)
      (member : method ∈ decl.methods) (marked : method.IsMarkedAccessor)
      (parsed : AccessorName.parse? method.name.text = some accessor)
      (maps : table.MapsMember accessor.member mapped) (given : named.text = accessor.withMember mapped) :
      Change hierarchy decls table (table.update decl.name (·.mapMethod method.signature named))

/-- Some changes that remapping makes, one after the other. -/
abbrev Evolves (hierarchy : Hierarchy) (decls : List ClassDecl) : Table → Table → Prop :=
  ReflTransGen (Change hierarchy decls)

section Changes

variable {hierarchy : Hierarchy} {decls : List ClassDecl} {before after : Table}

/-- A look-up is one of the changes. -/
theorem change_of_looksUp (step : LooksUp before after) : Change hierarchy decls before after := by
  obtain ⟨owner, signature, rfl⟩ := step
  exact .lookUp before owner signature

/-- Looking up fields is among the changes. -/
theorem evolves_of_looksUps (steps : ReflTransGen LooksUp before after) :
    Evolves hierarchy decls before after :=
  ReflTransGen.mono (fun _ _ => change_of_looksUp) _ _ steps

/-- Every change keeps a table sound. -/
theorem Table.Sound.change (sound : before.Sound) (step : Change hierarchy decls before after) :
    after.Sound := by
  cases step with
  | complete name => exact sound.complete hierarchy name
  | lookUp owner signature => exact sound.resolveField owner signature
  | nameField => exact sound.update fun _ entrySound => entrySound.mapField _ _
  | nameMethod => exact sound.update fun _ entrySound => entrySound.mapMethod _ _
  | nameAccessor => exact sound.update fun _ entrySound => entrySound.mapMethod _ _

/-- All changes of remapping keep a table sound. -/
theorem Table.Sound.evolves (sound : before.Sound) (changes : Evolves hierarchy decls before after) :
    after.Sound := by
  induction changes with
  | refl => exact sound
  | tail _ last ih => exact ih.change last

/-- Looking up fields keeps a table sound. -/
theorem Table.Sound.looksUps (sound : before.Sound) (steps : ReflTransGen LooksUp before after) :
    after.Sound :=
  sound.evolves (@evolves_of_looksUps .empty [] _ _ steps)

end Changes

end MixinLink
