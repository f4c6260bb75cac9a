import MixinLink.Proofs.ClassMapping
import MixinLink.Proofs.Reachable

/-!
# Tables with the same contents

Two tables have the same contents if every look-up finds the same in both; their entries may stand in
different orders, on every level. Mapped classes and types, what completing a class adds and what looking
up a field with its type finds do not depend on the order.

Main exports: `Table.Same`, `Table.Twins`, `Table.Same.mapClass`, `Table.Twins.complete`,
`Table.Twins.resolveField`, `Table.Twins.update`.
-/

namespace MixinLink

/-! ## Entries -/

/-- Two entries of the same contents. -/
structure ClassEntry.Same (first second : ClassEntry) : Prop where
  name : first.name = second.name
  mapped : first.mapped = second.mapped
  completed : first.completed = second.completed
  fields : ∀ signature, Assoc.find? signature first.fields = Assoc.find? signature second.fields
  methods : ∀ signature, Assoc.find? signature first.methods = Assoc.find? signature second.methods

namespace ClassEntry.Same

/-- An entry has its own contents. -/
theorem refl (entry : ClassEntry) : Same entry entry :=
  ⟨rfl, rfl, rfl, fun _ => rfl, fun _ => rfl⟩

variable {first second : ClassEntry}

/-- Mapping a field leaves the same contents. -/
theorem mapField (same : Same first second) (signature : FieldSignature) (mapped : FieldName) :
    Same (first.mapField signature mapped) (second.mapField signature mapped) := by
  refine ⟨same.name, same.mapped, same.completed, fun other => ?_, same.methods⟩
  simp only [ClassEntry.mapField, Assoc.find?_upsert, same.fields]

/-- Mapping a method leaves the same contents. -/
theorem mapMethod (same : Same first second) (signature : MethodSignature) (mapped : MethodName) :
    Same (first.mapMethod signature mapped) (second.mapMethod signature mapped) := by
  refine ⟨same.name, same.mapped, same.completed, same.fields, fun other => ?_⟩
  simp only [ClassEntry.mapMethod, Assoc.find?_upsert, same.methods]

/-- It does not matter which of two methods is mapped first. -/
theorem mapMethod_comm (same : Same first second) {signature other : MethodSignature}
    (differ : signature ≠ other) (mapped otherMapped : MethodName) :
    Same ((first.mapMethod signature mapped).mapMethod other otherMapped)
      ((second.mapMethod other otherMapped).mapMethod signature mapped) := by
  refine ⟨same.name, same.mapped, same.completed, same.fields, fun found => ?_⟩
  simp only [ClassEntry.mapMethod, Assoc.find?_upsert, same.methods]
  by_cases isOther : other = found
  · subst isOther
    simp [differ]
  · simp [isOther, Ne.symm differ]

/-- Adding the members that two entries lack leaves the same contents. -/
theorem completeWith (same : Same first second) (fields : List (FieldSignature × FieldName))
    (methods : List (MethodSignature × MethodName)) :
    Same (first.completeWith fields methods) (second.completeWith fields methods) := by
  refine ⟨same.name, same.mapped, rfl, fun signature => ?_, fun signature => ?_⟩
  · simp only [ClassEntry.completeWith, Table.find?_append_missing, same.fields]
  · simp only [ClassEntry.completeWith, Table.find?_append_missing, same.methods]

/-- A method has the same mapping. -/
theorem method? (same : Same first second) (signature : MethodSignature) :
    first.method? signature = second.method? signature := by
  unfold ClassEntry.method?
  rw [same.methods]

/-- The fields of a name are the same, in some order. -/
theorem fieldsNamed {keys : List String} (same : Same first second) (firstSound : SoundAt keys first)
    (secondSound : SoundAt keys second) (name : FieldName) :
    (first.fieldsNamed name).Perm (second.fieldsNamed name) :=
  ((Assoc.perm_of_find?_eq firstSound.members.uniqueFields secondSound.members.uniqueFields
    same.fields).map _).filter _

/-- The methods of a name are the same, in some order. -/
theorem methodsNamed {keys : List String} (same : Same first second) (firstSound : SoundAt keys first)
    (secondSound : SoundAt keys second) (name : MethodName) :
    (first.methodsNamed name).Perm (second.methodsNamed name) :=
  ((Assoc.perm_of_find?_eq firstSound.members.uniqueMethods secondSound.members.uniqueMethods
    same.methods).map _).filter _

/-- A field has the same mapping. -/
theorem field? (same : Same first second) (signature : FieldSignature) :
    first.field? signature = second.field? signature := by
  unfold ClassEntry.field?
  rw [same.fields]

/-- A field with its type has the same mapped name. -/
theorem typedField? (same : Same first second) (name : FieldName) (type : FieldType) :
    first.typedField? name type = second.typedField? name type := by
  unfold ClassEntry.typedField?
  rw [same.field?, same.field?]

/-- Looking up a field with its type leaves the same contents. -/
theorem resolveField (same : Same first second) (name : FieldName) (type : FieldType) :
    Same (first.resolveField ⟨name, some type⟩).2 (second.resolveField ⟨name, some type⟩).2 := by
  unfold ClassEntry.resolveField
  rw [if_neg (by simp), if_neg (by simp), same.field?, same.field?]
  cases second.field? ⟨name, some type⟩ with
  | some mapping => exact same
  | none =>
      simp only
      cases second.field? (FieldSignature.withoutType ⟨name, some type⟩) with
      | some mapped =>
          refine ⟨same.name, same.mapped, same.completed, fun signature => ?_, same.methods⟩
          simp only [Assoc.find?_append, same.fields]
      | none =>
          simp only
          split
          · split
            · exact same
            · exact same
          · split
            · exact same
            · exact same

/-- Looking up a field with its type finds the same. -/
theorem found_resolveField {keys : List String} (same : Same first second)
    (firstSound : SoundAt keys first) (secondSound : SoundAt keys second) (name : FieldName)
    (type : FieldType) :
    (first.resolveField ⟨name, some type⟩).1 = (second.resolveField ⟨name, some type⟩).1 := by
  have named := same.fieldsNamed firstSound secondSound name
  unfold ClassEntry.resolveField
  rw [if_neg (by simp), if_neg (by simp), same.field?, same.field?]
  cases second.field? ⟨name, some type⟩ with
  | some mapping => rfl
  | none =>
      simp only
      cases second.field? (FieldSignature.withoutType ⟨name, some type⟩) with
      | some mapped => rfl
      | none =>
          -- only the number of fields of that name matters, and which one it is if there is one
          simp only
          generalize first.fieldsNamed name = firstNamed at named
          generalize second.fieldsNamed name = secondNamed at named
          rcases firstNamed with _ | ⟨only, _ | ⟨next, others⟩⟩
          · cases List.nil_perm.1 named
            rfl
          · cases List.singleton_perm.1 named
            rfl
          · rcases secondNamed with _ | ⟨only, _ | ⟨next, others⟩⟩
            · cases named.length_eq
            · cases named.length_eq
            · rfl

end ClassEntry.Same

/-! ## Forests -/

/-- Two options are related if both are empty, or both have something and that is related. -/
theorem rel_cases {α β : Type} {related : α → β → Prop} {first : Option α} {second : Option β}
    (rel : Option.Rel related first second) :
    (first = none ∧ second = none)
      ∨ ∃ value other, first = some value ∧ second = some other ∧ related value other := by
  cases rel with
  | none => exact .inl ⟨rfl, rfl⟩
  | some holds => exact .inr ⟨_, _, rfl, rfl, holds⟩

/-- Two forests of the same contents. -/
def ClassForest.Same (first second : ClassForest) : Prop :=
  ∀ keys, Option.Rel ClassEntry.Same (first.entryAt? keys) (second.entryAt? keys)

namespace ClassForest

/-- An entry that is nested in others is looked up level by level. -/
theorem entryAt?_below (forest : ClassForest) (key next : String) (keys : List String) :
    forest.entryAt? (key :: next :: keys)
      = (forest.find? [key]).bind fun node => node.2.entryAt? (next :: keys) := by
  induction forest with
  | nil => rfl
  | cons first entry inner rest _ restIh =>
      rw [entryAt?_cons_cons, restIh]
      by_cases here : first = key
      · simp [find?, here]
      · simp [find?, here]

/-- A path is mapped level by level. -/
theorem mappedPath_below (forest : ClassForest) (key : String) (keys : List String) :
    forest.mappedPath (key :: keys)
      = match forest.find? [key] with
        | none => key :: keys
        | some node => node.1.mapped :: node.2.mappedPath keys := by
  induction forest with
  | nil => rfl
  | cons first entry inner rest _ restIh =>
      by_cases here : first = key
      · simp [mappedPath, find?, here]
      · simp [mappedPath, find?, here, restIh]

/-- The empty path has nothing to map. -/
theorem mappedPath_nil (forest : ClassForest) : forest.mappedPath [] = [] := by
  cases forest with
  | nil => rfl
  | cons => rfl

namespace Same

variable {first second : ClassForest}

/-- What is nested in two entries of the same contents has the same contents. -/
theorem below (same : Same first second) (key : String) :
    Option.Rel (fun node other => node.1.Same other.1 ∧ Same node.2 other.2)
      (first.find? [key]) (second.find? [key]) := by
  have here := same [key]
  have later : ∀ next keys, Option.Rel ClassEntry.Same (first.entryAt? (key :: next :: keys))
      (second.entryAt? (key :: next :: keys)) := fun next keys => same _
  simp only [entryAt?_below] at later
  rcases rel_cases here with ⟨absent, otherAbsent⟩ | ⟨entry, other, present, otherPresent, sameEntry⟩
  · rw [Option.map_eq_none_iff.1 absent, Option.map_eq_none_iff.1 otherAbsent]
    exact .none
  · obtain ⟨node, found, rfl⟩ := Option.map_eq_some_iff.1 present
    obtain ⟨otherNode, otherFound, rfl⟩ := Option.map_eq_some_iff.1 otherPresent
    simp only [found, otherFound, Option.bind_some] at later
    rw [found, otherFound]
    refine .some ⟨sameEntry, fun keys => ?_⟩
    cases keys with
    | nil =>
        rw [entryAt?_empty_path, entryAt?_empty_path]
        exact .none
    | cons next keys => exact later next keys

/-- Paths are mapped alike. -/
theorem mappedPath (same : Same first second) (keys : List String) :
    first.mappedPath keys = second.mappedPath keys := by
  induction keys generalizing first second with
  | nil => rw [mappedPath_nil, mappedPath_nil]
  | cons key keys ih =>
      rw [mappedPath_below, mappedPath_below]
      rcases rel_cases (same.below key) with ⟨absent, otherAbsent⟩
        | ⟨node, other, found, otherFound, related⟩
      · rw [absent, otherAbsent]
      · rw [found, otherFound]
        simp only
        rw [related.1.mapped, ih related.2]

/-- Changes that keep entries alike keep forests alike. -/
theorem update (same : Same first second) {change other : ClassEntry → ClassEntry}
    (kept : ∀ entry twin, ClassEntry.Same entry twin → ClassEntry.Same (change entry) (other twin))
    (trail : List (String × ClassName)) :
    Same (first.update change trail) (second.update other trail) := by
  intro keys
  have changed : ∀ entry twin, ClassEntry.Same entry twin →
      ClassEntry.Same ((if keys = trail.map Prod.fst then change else id) entry)
        ((if keys = trail.map Prod.fst then other else id) twin) := by
    intro entry twin related
    split
    · exact kept entry twin related
    · exact related
  rw [entryAt?_update, entryAt?_update]
  rcases rel_cases (same keys) with ⟨absent, otherAbsent⟩ | ⟨entry, twin, found, otherFound, related⟩
  · rw [absent, otherAbsent]
    cases freshAt? trail keys with
    | none => exact .none
    | some fresh => exact .some (changed fresh fresh (.refl fresh))
  · rw [found, otherFound]
    exact .some (changed entry twin related)

end Same

end ClassForest

/-! ## Tables -/

/-- Two tables of the same contents. -/
structure Table.Same (first second : Table) : Prop where
  namespaces : first.namespaces = second.namespaces
  classes : first.classes.Same second.classes

namespace Table.Same

/-- A table has its own contents. -/
theorem refl (table : Table) : Same table table := by
  refine ⟨rfl, fun keys => ?_⟩
  cases table.classes.entryAt? keys with
  | none => exact .none
  | some entry => exact .some (.refl entry)

variable {first second : Table}

/-- The entries of a class have the same contents. -/
theorem find? (same : Same first second) (name : ClassName) :
    Option.Rel ClassEntry.Same (first.find? name) (second.find? name) :=
  same.classes name.path

/-- What entries of the same contents tell alike, tables of the same contents tell alike. -/
theorem bind_find? {β : Type} (same : Same first second) (name : ClassName) {tell : ClassEntry → Option β}
    (alike : ∀ entry twin, ClassEntry.Same entry twin → tell entry = tell twin) :
    (first.find? name).bind tell = (second.find? name).bind tell := by
  rcases rel_cases (same.find? name) with ⟨absent, otherAbsent⟩ | ⟨entry, twin, found, otherFound, related⟩
  · rw [absent, otherAbsent]
  · rw [found, otherFound]
    exact alike entry twin related

/-- A class has an entry in both tables or in none. -/
theorem isSome_find? (same : Same first second) (name : ClassName) :
    (first.find? name).isSome = (second.find? name).isSome := by
  rcases rel_cases (same.find? name) with ⟨absent, otherAbsent⟩ | ⟨entry, twin, found, otherFound, _⟩
  · rw [absent, otherAbsent]
  · rw [found, otherFound]
    rfl

/-- A method of a class has the same mapping. -/
theorem method? (same : Same first second) (owner : ClassName) (signature : MethodSignature) :
    first.method? owner signature = second.method? owner signature :=
  same.bind_find? owner fun _ _ related => related.method? signature

/-- A class has the same mapped name, or none in both. -/
theorem mapClass? (same : Same first second) (name : ClassName) :
    first.mapClass? name = second.mapClass? name := by
  unfold Table.mapClass? Table.mappedText Table.topNode?
  rw [same.classes.mappedPath]
  rcases rel_cases (same.classes.below name.nesting.top.text) with
    ⟨absent, otherAbsent⟩ | ⟨node, other, found, otherFound, _⟩
  · rw [absent, otherAbsent]
  · rw [found, otherFound]

/-- Classes are mapped alike. -/
theorem mapClass (same : Same first second) (name : ClassName) :
    first.mapClass name = second.mapClass name := by
  unfold Table.mapClass
  rw [same.mapClass?]

/-- A class was completed in both tables or in none. -/
theorem isCompleted (same : Same first second) (name : ClassName) :
    first.isCompleted name = second.isCompleted name := by
  unfold Table.isCompleted
  rcases rel_cases (same.find? name) with ⟨absent, otherAbsent⟩ | ⟨entry, twin, found, otherFound, related⟩
  · rw [absent, otherAbsent]
  · rw [found, otherFound]
    exact related.completed

/-- The nearest mapped name of a field is the same. -/
theorem nearestFieldName (same : Same first second) : first.nearestFieldName = second.nearestFieldName := by
  funext lineage signature
  have asked : (fun owner => (first.find? owner).bind (·.field? signature))
      = fun owner => (second.find? owner).bind (·.field? signature) :=
    funext fun owner => same.bind_find? owner fun _ _ related => related.field? signature
  unfold Table.nearestFieldName
  rw [asked]

/-- The nearest mapped name of a method is the same. -/
theorem nearestMethodName (same : Same first second) :
    first.nearestMethodName = second.nearestMethodName := by
  funext lineage signature
  have asked : (fun owner => (first.find? owner).bind (·.method? signature))
      = fun owner => (second.find? owner).bind (·.method? signature) :=
    funext fun owner => same.bind_find? owner fun _ _ related => related.method? signature
  unfold Table.nearestMethodName
  rw [asked]

/-- Changes that keep entries alike keep tables alike. -/
theorem update (same : Same first second) (name : ClassName) {change other : ClassEntry → ClassEntry}
    (kept : ∀ entry twin, ClassEntry.Same entry twin → ClassEntry.Same (change entry) (other twin)) :
    Same (first.update name change) (second.update name other) :=
  ⟨same.namespaces, same.classes.update kept name.trail⟩

/-- Completing a class leaves the same contents. -/
theorem complete (same : Same first second) (hierarchy : Hierarchy) (name : ClassName) :
    Same (first.complete hierarchy name).value (second.complete hierarchy name).value := by
  have fields : first.inheritedFields hierarchy name = second.inheritedFields hierarchy name := by
    simp only [Table.inheritedFields, Table.collectFields_eq_collect, same.nearestFieldName]
  have methods : first.inheritedMethods hierarchy name = second.inheritedMethods hierarchy name := by
    simp only [Table.inheritedMethods, Table.collectMethods_eq_collect, same.nearestMethodName]
  rw [Table.complete_value, Table.complete_value, same.isCompleted, fields, methods]
  split
  · exact same
  · exact same.update name fun _ _ related => related.completeWith _ _

end Table.Same

/-- Two sound tables of the same contents. -/
structure Table.Twins (first second : Table) : Prop where
  same : first.Same second
  firstSound : first.Sound
  secondSound : second.Sound

namespace Table.Twins

variable {first second : Table}

/-- Changing the entry of a class keeps tables twins. -/
theorem update (twins : Twins first second) (name : ClassName) {change : ClassEntry → ClassEntry}
    (kept : ∀ entry twin, ClassEntry.Same entry twin → ClassEntry.Same (change entry) (change twin))
    (sound : ∀ entry, ClassEntry.SoundAt name.path entry → ClassEntry.SoundAt name.path (change entry)) :
    Twins (first.update name change) (second.update name change) :=
  ⟨twins.same.update name kept, twins.firstSound.update sound, twins.secondSound.update sound⟩

/-- Completing a class keeps tables twins. -/
theorem complete (twins : Twins first second) (hierarchy : Hierarchy) (name : ClassName) :
    Twins (first.complete hierarchy name).value (second.complete hierarchy name).value :=
  ⟨twins.same.complete hierarchy name, twins.firstSound.complete hierarchy name,
    twins.secondSound.complete hierarchy name⟩

/-- Looking up a field with its type finds the same. -/
theorem resolveField (twins : Twins first second) (owner : ClassName) (name : FieldName) (type : FieldType) :
    (first.resolveField owner ⟨name, some type⟩).1 = (second.resolveField owner ⟨name, some type⟩).1
      ∧ Twins (first.resolveField owner ⟨name, some type⟩).2
        (second.resolveField owner ⟨name, some type⟩).2 := by
  unfold Table.resolveField
  rcases rel_cases (twins.same.find? owner) with ⟨absent, otherAbsent⟩
    | ⟨entry, twin, found, otherFound, related⟩
  · rw [absent, otherAbsent]
    exact ⟨rfl, twins⟩
  · rw [found, otherFound]
    refine ⟨?_, twins.update owner (fun _ _ related => related.resolveField name type) fun _ sound => ?_⟩
    · exact related.found_resolveField (twins.firstSound.soundAt found)
        (twins.secondSound.soundAt otherFound)
        name type
    · exact sound.resolveField _

end Table.Twins

end MixinLink
