import MixinLink.Proofs.Assoc
import MixinLink.Proofs.Forest

/-!
# Looking up fields with partial knowledge

Looking up a field can add an entry for its full signature, copied from the entry of that name that
leaves the type open. As long as fields are stored under their own signatures, a mapped name that is found
is that of a field with the name that was asked for.

Main exports: `ClassEntry.CopiesOpen`, `ClassEntry.FieldsKeyed`, `ClassEntry.resolveField_adds`,
`ClassEntry.resolveField_maps`, `ClassEntry.typedField?`, `ClassEntry.resolveField_typed`,
`ClassEntry.answer_resolveField`, `Table.mapped_resolveField`.
-/

namespace MixinLink

namespace ClassEntry

/-- The field has a type but no mapping, and a mapping of its name that leaves the type open maps it. -/
structure CopiesOpen (entry : ClassEntry) (signature : FieldSignature) (mapped : FieldName) : Prop where
  typed : signature.type ≠ none
  absent : entry.field? signature = none
  fromOpen : (entry.field? signature.withoutType).map FieldMapping.mapped = some mapped

/-- Every field is stored under its own signature. -/
def FieldsKeyed (entry : ClassEntry) : Prop :=
  Assoc.All (fun signature mapping => mapping.signature = signature) entry.fields

instance (entry : ClassEntry) : Decidable entry.FieldsKeyed :=
  inferInstanceAs (Decidable (∀ field ∈ entry.fields, field.2.signature = field.1))

/-- A look-up leaves the entry as it is, or copies the mapping that leaves the type open. -/
theorem resolveField_adds (entry : ClassEntry) (signature : FieldSignature) :
    (entry.resolveField signature).2 = entry ∨
      ∃ mapped, entry.CopiesOpen signature mapped
        ∧ (entry.resolveField signature).2
          = { entry with fields := entry.fields ++ [(signature, ⟨signature, mapped⟩)] } := by
  unfold resolveField
  split
  · exact .inl rfl
  · rename_i typed
    split
    · exact .inl rfl
    · rename_i absent
      split
      · rename_i untyped fromOpen
        exact .inr ⟨untyped.mapped, ⟨typed, absent, by rw [fromOpen, Option.map_some]⟩, rfl⟩
      · split
        · exact .inl rfl
        · exact .inl rfl

/-- Looking up a field leaves the methods alone. -/
theorem methods_resolveField (entry : ClassEntry) (signature : FieldSignature) :
    (entry.resolveField signature).2.methods = entry.methods := by
  rcases entry.resolveField_adds signature with same | ⟨_, _, added⟩
  · rw [same]
  · rw [added]

/-- What holds of all fields holds after a look-up, if it carries over from a mapping that leaves the type
open. -/
theorem all_fields_resolveField {entry : ClassEntry} {signature : FieldSignature}
    {property : FieldSignature → FieldMapping → Prop} (all : Assoc.All property entry.fields)
    (copied : ∀ untyped, property signature.withoutType untyped →
      property signature ⟨signature, untyped.mapped⟩) :
    Assoc.All property (entry.resolveField signature).2.fields := by
  rcases entry.resolveField_adds signature with same | ⟨mapped, ⟨_, _, fromOpen⟩, added⟩
  · rwa [same]
  · rw [added]
    obtain ⟨untyped, found, rfl⟩ := Option.map_eq_some_iff.1 fromOpen
    exact all.append (List.forall_mem_singleton.2 (copied untyped (all.of_find? found)))

/-- A look-up stores fields under their own signatures. -/
theorem FieldsKeyed.resolveField {entry : ClassEntry} (keyed : entry.FieldsKeyed)
    (signature : FieldSignature) : (entry.resolveField signature).2.FieldsKeyed :=
  all_fields_resolveField keyed fun _ _ => rfl

private theorem mem_fieldsNamed {entry : ClassEntry} {name : FieldName} {mapping : FieldMapping} :
    mapping ∈ entry.fieldsNamed name
      ↔ (∃ signature, (signature, mapping) ∈ entry.fields) ∧ mapping.signature.name = name := by
  simp [fieldsNamed, fieldMappings]

/-- The mapped name that a look-up finds is that of some field of the name that was asked for. -/
theorem resolveField_maps {entry : ClassEntry} (keyed : entry.FieldsKeyed) {signature : FieldSignature}
    {mapping : FieldMapping} (found : (entry.resolveField signature).1 = some mapping) :
    ∃ field ∈ entry.fields, field.1.name = signature.name ∧ field.2.mapped = mapping.mapped := by
  have ofNamed : ∀ {name : FieldName}, mapping ∈ entry.fieldsNamed name →
      ∃ field ∈ entry.fields, field.1.name = name ∧ field.2.mapped = mapping.mapped := by
    intro name member
    obtain ⟨⟨stored, member⟩, named⟩ := mem_fieldsNamed.1 member
    have isKey : mapping.signature = stored := keyed _ member
    exact ⟨_, member, isKey ▸ named, rfl⟩
  unfold resolveField at found
  by_cases isOpen : signature.type = none
  · rw [if_pos isOpen] at found
    exact ofNamed (List.mem_of_mem_head? found)
  · rw [if_neg isOpen] at found
    cases present : entry.field? signature with
    | some known =>
        simp only [present, Option.some.injEq] at found
        exact ⟨_, Assoc.mem_of_find? present, rfl, congrArg FieldMapping.mapped found⟩
    | none =>
        cases fromOpen : entry.field? signature.withoutType with
        | some untyped =>
            simp only [present, fromOpen, Option.some.injEq] at found
            exact ⟨_, Assoc.mem_of_find? fromOpen, rfl, by rw [← found]⟩
        | none =>
            simp only [present, fromOpen] at found
            split at found
            · rename_i only single
              cases found
              exact ofNamed (by rw [single]; exact List.mem_singleton_self _)
            · cases found

/-- The mapped name of a field with a known type: its own, or that of the mapping of its name that
leaves the type open. -/
def typedField? (entry : ClassEntry) (name : FieldName) (type : FieldType) : Option FieldName :=
  ((entry.field? ⟨name, some type⟩).or (entry.field? ⟨name, none⟩)).map FieldMapping.mapped

/-- Leaving out fields of other types, a look-up finds exactly the field of that type. -/
theorem resolveField_typed {entry : ClassEntry} (keyed : entry.FieldsKeyed) (name : FieldName)
    (type : FieldType) :
    (((entry.resolveField ⟨name, some type⟩).1.filter fun mapping =>
        mapping.signature.type = none || mapping.signature.type = some type).map FieldMapping.mapped)
      = entry.typedField? name type := by
  unfold resolveField typedField?
  rw [if_neg (by simp)]
  cases known : entry.field? ⟨name, some type⟩ with
  | some mapping =>
      have isKey : mapping.signature = ⟨name, some type⟩ := Assoc.All.of_find? keyed known
      simp [isKey]
  | none =>
      cases untyped : entry.field? ⟨name, none⟩ with
      | some mapping => simp [FieldSignature.withoutType, FieldSignature.untyped, untyped]
      | none =>
          simp only [FieldSignature.withoutType, FieldSignature.untyped, untyped, Option.or_none,
            Option.map_none]
          split
          · rename_i only single
            -- the only field of that name has another type, for the two signatures are not there
            have member : only ∈ entry.fieldsNamed name := by rw [single]; exact List.mem_singleton_self _
            obtain ⟨⟨stored, member⟩, named⟩ := mem_fieldsNamed.1 member
            have isKey : only.signature = stored := keyed _ member
            have listed : (⟨name, only.signature.type⟩ : FieldSignature) ∈ entry.fields.map Prod.fst := by
              rw [← named]
              exact List.mem_map.2 ⟨_, member, isKey.symm⟩
            have other : only.signature.type ≠ none ∧ only.signature.type ≠ some type := by
              constructor
              · intro isOpen
                exact Assoc.find?_eq_none.1 untyped (isOpen ▸ listed)
              · intro isType
                exact Assoc.find?_eq_none.1 known (isType ▸ listed)
            simp [Option.filter, other.1, other.2]
          · rfl

/-- The mapping under a signature, after another one was added at the end. -/
theorem field?_append (entry : ClassEntry) (added : FieldSignature × FieldMapping)
    (signature : FieldSignature) :
    field? { entry with fields := entry.fields ++ [added] } signature
      = (entry.field? signature).or (if added.1 = signature then some added.2 else none) := by
  rw [field?, Assoc.find?_append, field?, Assoc.find?, Assoc.find?]

/-- Looking up some field changes no mapped name of a field with a known type. -/
theorem typedField?_resolveField (entry : ClassEntry) (signature : FieldSignature) (name : FieldName)
    (type : FieldType) :
    (entry.resolveField signature).2.typedField? name type = entry.typedField? name type := by
  rcases resolveField_adds entry signature with same | ⟨mapped, ⟨typed, absent, untyped⟩, added⟩
  · rw [same]
  · have notOpen : signature ≠ ⟨name, none⟩ := by
      rintro rfl
      exact typed rfl
    rw [added, typedField?, field?_append, field?_append, if_neg notOpen, Option.or_none, typedField?]
    by_cases sameField : signature = ⟨name, some type⟩
    · cases sameField
      have fromOpen : (entry.field? ⟨name, none⟩).map FieldMapping.mapped = some mapped := untyped
      simp [absent, fromOpen]
    · rw [if_neg sameField, Option.or_none]

/-- The fields of a name after a look-up: those that were there, and perhaps one more at the end. -/
theorem fieldsNamed_append (entry : ClassEntry) (added : FieldSignature × FieldMapping) (name : FieldName) :
    fieldsNamed { entry with fields := entry.fields ++ [added] } name
      = entry.fieldsNamed name ++ if added.2.signature.name = name then [added.2] else [] := by
  simp only [fieldsNamed, fieldMappings, List.map_append, List.filter_append]
  by_cases named : added.2.signature.name = name <;> simp [named]

/-- Looking up some field changes nothing that a later look-up finds. -/
theorem answer_resolveField {entry : ClassEntry} (keyed : entry.FieldsKeyed)
    (looked asked : FieldSignature) :
    ((entry.resolveField looked).2.resolveField asked).1 = (entry.resolveField asked).1 := by
  rcases resolveField_adds entry looked with same | ⟨mapped, ⟨typed, _, fromOpen⟩, added⟩
  · rw [same]
  rw [added]
  obtain ⟨untyped, isUntyped, rfl⟩ := Option.map_eq_some_iff.1 fromOpen
  have openKey : untyped.signature = looked.withoutType := Assoc.All.of_find? keyed isUntyped
  -- the mapping that leaves the type open stands before the added one
  have listed : untyped ∈ entry.fieldsNamed looked.name :=
    mem_fieldsNamed.2 ⟨⟨_, Assoc.mem_of_find? isUntyped⟩, by rw [openKey]; rfl⟩
  by_cases isOpen : asked.type = none
  · rw [resolveField, if_pos isOpen, resolveField, if_pos isOpen, fieldsNamed_append]
    by_cases named : looked.name = asked.name
    · rw [← named, List.head?_append_of_ne_nil _ (List.ne_nil_of_mem listed)]
    · rw [if_neg named, List.append_nil]
  · have notOpen : looked ≠ asked.withoutType := by
      intro same
      exact typed (congrArg FieldSignature.type same)
    rw [resolveField, if_neg isOpen, resolveField, if_neg isOpen, field?_append, field?_append,
      if_neg notOpen, Option.or_none]
    cases known : entry.field? asked with
    | some own => rfl
    | none =>
        by_cases again : looked = asked
        · subst again
          simp [isUntyped]
        · cases openMapping : entry.field? asked.withoutType with
          | some own => simp [again]
          | none =>
              have otherName : looked.name ≠ asked.name := by
                intro sameName
                have sameOpen : looked.withoutType = asked.withoutType :=
                  congrArg FieldSignature.untyped sameName
                rw [sameOpen, openMapping] at isUntyped
                cases isUntyped
              have sameNamed := entry.fieldsNamed_append (looked, ⟨looked, untyped.mapped⟩) asked.name
              rw [if_neg otherName, List.append_nil] at sameNamed
              simp only [again, if_false, Option.or_none, sameNamed]
              split <;> rfl

end ClassEntry

namespace Table

/-- A look-up concerns the entry of one class. -/
theorem find?_resolveField (table : Table) (owner other : ClassName) (signature : FieldSignature) :
    (table.resolveField owner signature).2.find? other
      = (table.find? other).map fun entry =>
          if other = owner then (entry.resolveField signature).2 else entry := by
  unfold resolveField
  cases found : table.find? owner with
  | none =>
      by_cases same : other = owner
      · simp [same, found]
      · simp [same]
  | some entry =>
      have present : (table.find? owner).isSome := by simp [found]
      simp only [find?_update_of_isSome present]
      congr 1
      funext entry
      split <;> rfl

private theorem mapped_of_resolveField_eq (table : Table) (owner : ClassName) (signature : FieldSignature) :
    (table.resolveField owner signature).1.map FieldMapping.mapped
      = (table.find? owner).bind fun entry => (entry.resolveField signature).1.map FieldMapping.mapped := by
  unfold resolveField
  cases table.find? owner with
  | none => rfl
  | some entry => rfl

/-- No look-up changes the mapped name that a later look-up finds, in the same class or in another one. -/
theorem mapped_resolveField {table : Table}
    (keyed : ∀ name entry, table.find? name = some entry → entry.FieldsKeyed) (owner other : ClassName)
    (looked asked : FieldSignature) :
    ((table.resolveField owner looked).2.resolveField other asked).1.map FieldMapping.mapped
      = (table.resolveField other asked).1.map FieldMapping.mapped := by
  rw [mapped_of_resolveField_eq, mapped_of_resolveField_eq, find?_resolveField]
  cases found : table.find? other with
  | none => rfl
  | some entry =>
      simp only [Option.map_some, Option.bind_some]
      split
      · rw [ClassEntry.answer_resolveField (keyed other entry found) looked asked]
      · rfl

end Table

end MixinLink
