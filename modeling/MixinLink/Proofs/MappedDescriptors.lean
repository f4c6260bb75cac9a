import MixinLink.Proofs.ClassMapping
import MixinLink.Proofs.DescriptorGrammar
import MixinLink.Proofs.Reachable

/-!
# Mapping descriptors

A descriptor is mapped by reading it, mapping the classes in its type and writing the type again. What is
written is a descriptor once more. Its term has the form of the term that was read: the same parameters in
the same order, the same primitive types and array dimensions, a result only where there was one. Only the
class names are replaced, each by its mapped name.

Main exports: `RawType.MappedBy`, `RawMethodType.MappedBy`, `Table.mapsDescriptors_of_reachable`.
-/

namespace MixinLink

/-! ## Terms with mapped class names -/

/-- The second term is the first one with its class name mapped. -/
inductive RawBase.MappedBy (table : Table) : RawBase → RawBase → Prop where
  | primitive (type : Primitive) : MappedBy table (.primitive type) (.primitive type)
  | object {name mapped : ClassName} (maps : table.mapClass name = .ok mapped) :
      MappedBy table (.object name.text) (.object mapped.text)

/-- The second term is the first one with its class name mapped, and has as many dimensions. -/
inductive RawType.MappedBy (table : Table) : RawType → RawType → Prop where
  | plain {base mapped : RawBase} (maps : base.MappedBy table mapped) :
      MappedBy table (.plain base) (.plain mapped)
  | array (depth : Nat) {base mapped : RawBase} (maps : base.MappedBy table mapped) :
      MappedBy table (.array depth base) (.array depth mapped)

/-- The second term is the first one with all its class names mapped. -/
structure RawMethodType.MappedBy (table : Table) (type mapped : RawMethodType) : Prop where
  parameters : List.Forall₂ (RawType.MappedBy table) type.parameters mapped.parameters
  result : Option.Rel (RawType.MappedBy table) type.result mapped.result

namespace Table

variable {table : Table}

/-! ## Mapped types have mapped terms -/

private theorem mappedBy_of_mapBaseType {type mapped : BaseType}
    (success : table.mapBaseType type = .ok mapped) :
    type.raw.MappedBy table mapped.raw := by
  cases type with
  | primitive type =>
      cases success
      exact .primitive type
  | object name =>
      simp only [mapBaseType] at success
      split at success
      · rename_i image maps
        cases success
        exact .object maps
      · cases success

private theorem mappedBy_of_mapFieldType {type mapped : FieldType}
    (success : table.mapFieldType type = .ok mapped) :
    type.raw.MappedBy table mapped.raw := by
  unfold mapFieldType at success
  split at success
  · rename_i base baseOk
    cases success
    have maps := mappedBy_of_mapBaseType baseOk
    by_cases notArray : type.depth = 0
    · rw [FieldType.raw, FieldType.raw, if_pos notArray, if_pos notArray]
      exact .plain maps
    · rw [FieldType.raw, FieldType.raw, if_neg notArray, if_neg notArray]
      exact .array type.depth maps
  · cases success

/-- The parameters stay in their order, one for one. -/
theorem mappedBy_of_mapFieldTypes {types mapped : List FieldType}
    (success : table.mapFieldTypes types = .ok mapped) :
    List.Forall₂ (RawType.MappedBy table) (types.map FieldType.raw) (mapped.map FieldType.raw) := by
  induction types generalizing mapped with
  | nil =>
      cases success
      exact .nil
  | cons type types ih =>
      obtain ⟨first, firstOk, success⟩ := Checked.bind_eq_ok.1 success
      obtain ⟨others, othersOk, success⟩ := Checked.bind_eq_ok.1 success
      cases Checked.pure_eq_ok.1 success
      exact .cons (mappedBy_of_mapFieldType firstOk) (ih othersOk)

private theorem mappedBy_of_mapMethodType {type mapped : MethodType}
    (success : table.mapMethodType type = .ok mapped) : type.raw.MappedBy table mapped.raw := by
  obtain ⟨parameters, result⟩ := type
  obtain ⟨types, typesOk, success⟩ := Checked.bind_eq_ok.1 success
  have mappedTypes := mappedBy_of_mapFieldTypes typesOk
  cases result with
  | none =>
      cases Checked.pure_eq_ok.1 success
      exact ⟨mappedTypes, .none⟩
  | some result =>
      obtain ⟨image, imageOk, success⟩ := Checked.bind_eq_ok.1 success
      cases Checked.pure_eq_ok.1 success
      exact ⟨mappedTypes, .some (mappedBy_of_mapFieldType imageOk)⟩

end Table

/-! ## Descriptors -/

/-- What is written can be read if every value is read from its own text, and then the terms before and
after are related as the changed values are. -/
theorem Checked.exists_rewrite {α β : Type} {parse : String → Checked α} {change : α → Checked α}
    {write : α → String} {raw : α → β} {Related : β → β → Prop}
    (reads : ∀ value, parse (write value) = .ok value)
    (total : ∀ value, ∃ changed, change value = .ok changed)
    (related : ∀ value changed, change value = .ok changed → Related (raw value) (raw changed))
    {text : String} {term : β} (success : raw <$> parse text = .ok term) :
    ∃ result image, (do return write (← change (← parse text))) = Except.ok result
      ∧ raw <$> parse result = .ok image ∧ Related term image := by
  obtain ⟨value, isValue, rfl⟩ := Checked.map_eq_ok.1 success
  obtain ⟨changed, isChanged⟩ := total value
  have written : (do return write (← change (← parse text)) : Checked String) = .ok (write changed) :=
    Checked.bind_eq_ok.2 ⟨value, isValue, Checked.bind_eq_ok.2 ⟨changed, isChanged, rfl⟩⟩
  have again : raw <$> parse (write changed) = .ok (raw changed) :=
    Checked.map_eq_ok.2 ⟨changed, reads changed, rfl⟩
  exact ⟨write changed, raw changed, written, again, related value changed isChanged⟩

/-- Every descriptor is mapped to a descriptor, whose term is that of the first one with all class names
mapped. -/
structure Table.MapsDescriptors (table : Table) : Prop where
  fields : ∀ text term, FieldType.raw <$> FieldType.parse text = .ok term →
    ∃ result image, table.mapFieldDescriptor text = .ok result
      ∧ FieldType.raw <$> FieldType.parse result = .ok image ∧ term.MappedBy table image
  methods : ∀ text term, MethodType.raw <$> MethodType.parse text = .ok term →
    ∃ result image, table.mapMethodDescriptor text = .ok result
      ∧ MethodType.raw <$> MethodType.parse result = .ok image ∧ term.MappedBy table image

namespace Table

/-- All tables that operations lead to map descriptors as described. -/
theorem mapsDescriptors_of_reachable {table : Table} (reachable : table.Reachable) :
    table.MapsDescriptors where
  fields _ _ success :=
    Checked.exists_rewrite (fun _ => FieldType.parse_eq_ok.2 rfl) reachable.sound.exists_mapFieldType
      (fun _ _ => mappedBy_of_mapFieldType) success
  methods _ _ success :=
    Checked.exists_rewrite (fun _ => MethodType.parse_eq_ok.2 rfl) reachable.sound.exists_mapMethodType
      (fun _ _ => mappedBy_of_mapMethodType) success

/-- Arrays keep their dimensions, and classes without an entry keep their names. -/
theorem mapsDescriptors_testTarget :
    ∃ table : Table, table.Reachable ∧ table.MapsDescriptors
      ∧ table.mapMethodDescriptor "([Lhj;ILjava/lang/Object;)Lhj;"
        = .ok "([Lnet/example/TestTarget;ILjava/lang/Object;)Lnet/example/TestTarget;" := by
  let name : ClassName := ⟨"hj", by decide +kernel⟩
  let operations : List Operation := [.createClass name, .renameClass name "net/example/TestTarget"]
  let table := operations.foldl Operation.apply (.empty .standard)
  have reachable : table.Reachable := (Reachable.empty .standard).run operations
  exact ⟨table, reachable, mapsDescriptors_of_reachable reachable, by decide +kernel⟩

end Table

end MixinLink
