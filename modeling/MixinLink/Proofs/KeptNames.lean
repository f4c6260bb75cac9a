import MixinLink.Proofs.Changes
import MixinLink.Proofs.ClassMapping

/-!
# Tables that rename nothing

A table may keep the name of every class, field and method. Completing classes and looking fields up adds
entries that keep their names as well. Such a table maps every class and every type to itself.

Main exports: `Table.KeepsNames`, `Table.KeepsNames.complete`, `Table.KeepsNames.mapsMember`,
`Table.KeepsNames.mapClass`, `Table.KeepsNames.mapMethodType`.
-/

namespace MixinLink

/-! ## Entries that keep their names -/

/-- The class and its members keep their names. -/
structure ClassEntry.KeepsNames (entry : ClassEntry) : Prop where
  mapped : entry.mapped = entry.name.key
  fields : Assoc.All (fun signature mapping => mapping.mapped = signature.name) entry.fields
  methods : Assoc.All (fun signature mapping => mapping.mapped = signature.name) entry.methods

instance (entry : ClassEntry) : Decidable entry.KeepsNames :=
  decidable_of_iff
    (entry.mapped = entry.name.key ∧ (∀ field ∈ entry.fields, field.2.mapped = field.1.name)
      ∧ ∀ method ∈ entry.methods, method.2.mapped = method.1.name)
    ⟨fun parts => ⟨parts.1, parts.2.1, parts.2.2⟩, fun keeps => ⟨keeps.mapped, keeps.fields, keeps.methods⟩⟩

/-- Every class of the table and every member keeps its name. -/
def Table.KeepsNames (table : Table) : Prop :=
  table.classes.All (fun _ entry => entry.KeepsNames) []

instance (table : Table) : Decidable table.KeepsNames :=
  inferInstanceAs (Decidable (table.classes.All _ []))

namespace ClassEntry.KeepsNames

variable {entry : ClassEntry}

/-- An entry that is added keeps its name. -/
theorem fresh (name : ClassName) : (ClassEntry.fresh name name.key).KeepsNames :=
  ⟨rfl, Assoc.all_nil, Assoc.all_nil⟩

/-- A field may be mapped to its own name. -/
theorem mapField (keeps : entry.KeepsNames) (signature : FieldSignature) :
    (entry.mapField signature signature.name).KeepsNames :=
  ⟨keeps.mapped, keeps.fields.upsert rfl fun _ _ => rfl, keeps.methods⟩

/-- A method may be mapped to its own name. -/
theorem mapMethod (keeps : entry.KeepsNames) (signature : MethodSignature) :
    (entry.mapMethod signature signature.name).KeepsNames :=
  ⟨keeps.mapped, keeps.fields, keeps.methods.upsert rfl fun _ _ => rfl⟩

/-- A field that a look-up adds keeps the name that it had with its type left open. -/
theorem resolveField (keeps : entry.KeepsNames) (signature : FieldSignature) :
    (entry.resolveField signature).2.KeepsNames := by
  refine ⟨?_, ClassEntry.all_fields_resolveField keeps.fields fun _ kept => kept, ?_⟩
  · rcases entry.resolveField_adds signature with same | ⟨_, _, added⟩
    · rw [same]
      exact keeps.mapped
    · rw [added]
      exact keeps.mapped
  · rw [ClassEntry.methods_resolveField]
    exact keeps.methods

/-- Members that are added have to keep their names. -/
theorem completeWith (keeps : entry.KeepsNames) {fields : List (FieldSignature × FieldName)}
    {methods : List (MethodSignature × MethodName)} (fieldsKeep : ∀ field ∈ fields, field.2 = field.1.name)
    (methodsKeep : ∀ method ∈ methods, method.2 = method.1.name) :
    (entry.completeWith fields methods).KeepsNames :=
  ⟨keeps.mapped, Table.all_append_missing keeps.fields fieldsKeep,
    Table.all_append_missing keeps.methods methodsKeep⟩

end ClassEntry.KeepsNames

/-! ## Tables that keep their names -/

namespace Table.KeepsNames

variable {table : Table}

/-- The entry of every class keeps its names. -/
theorem entry (keeps : table.KeepsNames) {name : ClassName} {entry : ClassEntry}
    (found : table.find? name = some entry) : entry.KeepsNames :=
  ClassForest.All.entryAt? keeps found

/-- A change of an entry may leave all names. -/
theorem update (keeps : table.KeepsNames) {name : ClassName} {change : ClassEntry → ClassEntry}
    (kept : ∀ entry, entry.KeepsNames → (change entry).KeepsNames) :
    (table.update name change).KeepsNames := by
  refine ClassForest.All.update keeps ?_ fun entry entryKeeps => kept entry entryKeeps
  intro before key other after split
  rw [ClassName.key_of_trail split]
  exact .fresh other

/-- Inherited members keep their names, as all members do. -/
theorem complete (keeps : table.KeepsNames) (hierarchy : Hierarchy) (name : ClassName) :
    (table.complete hierarchy name).value.KeepsNames := by
  rw [Table.complete_value]
  split
  · exact keeps
  · refine keeps.update fun entry entryKeeps => entryKeeps.completeWith ?_ ?_
    · refine Table.forall_inheritedFields fun lineage signature => ?_
      rcases table.nearestFieldName_cases lineage signature with own | ⟨_, _, _, present, stored, isNearest⟩
      · exact own
      · exact isNearest.trans ((keeps.entry present).fields _ stored)
    · refine Table.forall_inheritedMethods fun lineage signature => ?_
      rcases table.nearestMethodName_cases lineage signature with own | ⟨_, _, _, present, stored, isNearest⟩
      · exact own
      · exact isNearest.trans ((keeps.entry present).methods _ stored)

/-- Looking up a field leaves all names. -/
theorem resolveField (keeps : table.KeepsNames) (owner : ClassName) (signature : FieldSignature) :
    (table.resolveField owner signature).2.KeepsNames := by
  unfold Table.resolveField
  split
  · exact keeps
  · exact keeps.update fun _ entryKeeps => entryKeeps.resolveField signature

/-- Every member is mapped to its own name. -/
theorem mapsMember (keeps : table.KeepsNames) {name mapped : String} (maps : table.MapsMember name mapped) :
    mapped = name := by
  obtain ⟨owner, entry, found, member⟩ := maps
  rcases member with ⟨field, isField, rfl, rfl⟩ | ⟨method, isMethod, rfl, rfl⟩
  · rw [(keeps.entry found).fields field isField]
  · rw [(keeps.entry found).methods method isMethod]

/-! ### Classes and types -/

/-- The mapped keys of a path are its keys. -/
theorem mappedPath {forest : ClassForest} {outer : List String} (sound : forest.All ClassEntry.SoundAt outer)
    (keeps : forest.All (fun _ entry => entry.KeepsNames) outer) (keys : List String) :
    forest.mappedPath keys = keys := by
  induction forest generalizing outer keys with
  | nil => rfl
  | cons key entry inner rest innerIh restIh =>
      obtain ⟨entrySound, innerSound, restSound⟩ := sound
      obtain ⟨entryKeeps, innerKeeps, restKeeps⟩ := keeps
      cases keys with
      | nil => rfl
      | cons first others =>
          by_cases same : key = first
          · have last := entry.name.getLast?_path
            rw [entrySound.path, List.getLast?_concat, Option.some.injEq] at last
            simp only [ClassForest.mappedPath, same, if_true, entryKeeps.mapped, ← last,
              innerIh innerSound innerKeeps]
          · simp only [ClassForest.mappedPath, same, if_false]
            exact restIh restSound restKeeps (first :: others)

/-- Every class is mapped to itself. -/
theorem mapClass (keeps : table.KeepsNames) (sound : table.Sound) (name : ClassName) :
    table.mapClass name = .ok name := by
  rw [Table.mapClass_eq_ok, mappedText, mappedPath sound.entries keeps]
  exact name.text_eq_intercalate_path

/-- Every type is mapped to itself. -/
theorem mapFieldType (keeps : table.KeepsNames) (sound : table.Sound) (type : FieldType) :
    table.mapFieldType type = .ok type := by
  have base : table.mapBaseType type.base = .ok type.base := by
    cases type.base with
    | primitive primitive => rfl
    | object name => simp only [mapBaseType, keeps.mapClass sound]
  rw [Table.mapFieldType, base]

/-- All parameters are mapped to themselves. -/
theorem mapFieldTypes (keeps : table.KeepsNames) (sound : table.Sound) (types : List FieldType) :
    table.mapFieldTypes types = .ok types := by
  induction types with
  | nil => rfl
  | cons type types ih =>
      rw [Table.mapFieldTypes, keeps.mapFieldType sound, ih]
      rfl

/-- The type of every method is mapped to itself. -/
theorem mapMethodType (keeps : table.KeepsNames) (sound : table.Sound) (type : MethodType) :
    table.mapMethodType type = .ok type := by
  obtain ⟨parameters, result⟩ := type
  rw [Table.mapMethodType, keeps.mapFieldTypes sound]
  cases result with
  | none => rfl
  | some result =>
      simp only [keeps.mapFieldType sound]
      rfl

end Table.KeepsNames

end MixinLink
