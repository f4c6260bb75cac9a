import MixinLink.Proofs.FlatMap
import MixinLink.Proofs.Inheritance

/-!
# What completing a class adds

Completing a class for the first time adds the members that the classes of its lineage declare for it. The
class that counts is the first one in the lineage that declares the member; from there on upwards, the
first class with a name for it gives the name. What a class declares for the classes below it is said here
in terms of its declarations alone, and so is what the entries are afterwards.

Main exports: `Hierarchy.BringsField`, `Hierarchy.BringsMethod`, `CompletesMembers`, `Table.CompletedAs`,
`Table.completedAs_of_first_time`.
-/

namespace MixinLink

/-! ## What a lineage brings -/

namespace Hierarchy

/-- The class at some depth of the lineage of a class is known, and it declares a field that the class has:
above the class itself, one that is not private. -/
def BringsField (hierarchy : Hierarchy) (name : ClassName) (depth : Nat) (signature : FieldSignature) :
    Prop :=
  ∃ owner info field, (hierarchy.lineage name)[depth]? = some owner ∧ hierarchy.find? owner = some info
    ∧ field ∈ info.fields ∧ field.signature = signature ∧ (0 < depth → field.isPrivate = false)

/-- The class at some depth of the lineage of a class is known, and it declares a method that the class has:
above the class itself, one that is not private and neither creates instances nor sets up the class. -/
def BringsMethod (hierarchy : Hierarchy) (name : ClassName) (depth : Nat) (signature : MethodSignature) :
    Prop :=
  ∃ owner info method, (hierarchy.lineage name)[depth]? = some owner ∧ hierarchy.find? owner = some info
    ∧ method ∈ info.methods ∧ method.signature = signature
    ∧ (0 < depth →
      method.isPrivate = false ∧ method.name.text ≠ "<init>" ∧ method.name.text ≠ "<clinit>")

end Hierarchy

namespace Table

/-- The fields that a class declares for itself, or for the classes below it. -/
theorem mem_declaredFields {hierarchy : Hierarchy} {isBottom : Bool} {owner : ClassName}
    {signature : FieldSignature} :
    signature ∈ declaredFields hierarchy isBottom owner
      ↔ ∃ info, hierarchy.find? owner = some info
        ∧ ∃ field ∈ info.fields, field.signature = signature
          ∧ (isBottom = false → field.isPrivate = false) := by
  unfold declaredFields
  cases hierarchy.find? owner with
  | none => simp
  | some info => cases isBottom <;> simp [and_assoc, and_comm, and_left_comm]

/-- The methods that a class declares for itself, or for the classes below it. -/
theorem mem_declaredMethods {hierarchy : Hierarchy} {isBottom : Bool} {owner : ClassName}
    {signature : MethodSignature} :
    signature ∈ declaredMethods hierarchy isBottom owner
      ↔ ∃ info, hierarchy.find? owner = some info
        ∧ ∃ method ∈ info.methods, method.signature = signature
          ∧ (isBottom = false → method.isInheritable = true) := by
  unfold declaredMethods
  cases hierarchy.find? owner with
  | none => simp
  | some info => cases isBottom <;> simp [and_assoc, and_comm]

/-- The lineage declares the fields that it brings. -/
theorem declaredAt_fields {hierarchy : Hierarchy} {name : ClassName} {depth : Nat}
    {signature : FieldSignature} :
    DeclaredAt (declaredFields hierarchy) true (hierarchy.lineage name) depth signature
      ↔ hierarchy.BringsField name depth signature := by
  have isAbove : (true && depth == 0) = false ↔ 0 < depth := by simp [Nat.pos_iff_ne_zero]
  simp only [DeclaredAt, mem_declaredFields, isAbove, Hierarchy.BringsField]
  constructor
  · intro declared
    obtain ⟨owner, atDepth, info, known, field, member, named, visible⟩ := declared
    exact ⟨owner, info, field, atDepth, known, member, named, visible⟩
  · intro brings
    obtain ⟨owner, info, field, atDepth, known, member, named, visible⟩ := brings
    exact ⟨owner, atDepth, info, known, field, member, named, visible⟩

/-- The methods that classes below inherit. -/
theorem isInheritable_iff {method : MethodInfo} :
    method.isInheritable = true
      ↔ method.isPrivate = false ∧ method.name.text ≠ "<init>" ∧ method.name.text ≠ "<clinit>" := by
  simp [MethodInfo.isInheritable, MethodName.isSpecial]

/-- The lineage declares the methods that it brings. -/
theorem declaredAt_methods {hierarchy : Hierarchy} {name : ClassName} {depth : Nat}
    {signature : MethodSignature} :
    DeclaredAt (declaredMethods hierarchy) true (hierarchy.lineage name) depth signature
      ↔ hierarchy.BringsMethod name depth signature := by
  have isAbove : (true && depth == 0) = false ↔ 0 < depth := by simp [Nat.pos_iff_ne_zero]
  simp only [DeclaredAt, mem_declaredMethods, isAbove, isInheritable_iff, Hierarchy.BringsMethod]
  constructor
  · intro declared
    obtain ⟨owner, atDepth, info, known, method, member, named, visible⟩ := declared
    exact ⟨owner, info, method, atDepth, known, member, named, visible⟩
  · intro brings
    obtain ⟨owner, info, method, atDepth, known, member, named, visible⟩ := brings
    exact ⟨owner, atDepth, info, known, method, member, named, visible⟩

end Table

/-! ## Members of one kind -/

/-- How completing a class changes what it has for members of one kind. -/
structure CompletesMembers {σ ν : Type} (brings : Nat → σ → Prop) (nearest : Nat → σ → ν)
    (before after : σ → Option ν) : Prop where
  /-- A member with a mapping keeps it. -/
  kept : ∀ signature named, before signature = some named → after signature = some named
  /-- Another member gets what is nearest to the first class that brings it. -/
  added : ∀ signature depth, before signature = none → brings depth signature →
    (∀ earlier < depth, ¬brings earlier signature) → after signature = some (nearest depth signature)
  /-- A member that no class brings gets nothing. -/
  absent : ∀ signature, before signature = none → (∀ depth, ¬brings depth signature) →
    after signature = none

/-- Members are completed alike if only a part of what they have is looked at. -/
theorem CompletesMembers.map {σ μ ν : Type} {brings : Nat → σ → Prop} {nearest : Nat → σ → μ}
    {before after : σ → Option μ} (completes : CompletesMembers brings nearest before after) (told : μ → ν) :
    CompletesMembers brings (fun depth signature => told (nearest depth signature))
      (fun signature => (before signature).map told) (fun signature => (after signature).map told) where
  kept := by
    intro signature named found
    obtain ⟨value, present, rfl⟩ := Option.map_eq_some_iff.1 found
    rw [completes.kept signature value present, Option.map_some]
  added := by
    intro signature depth unnamed here first
    rw [completes.added signature depth (Option.map_eq_none_iff.1 unnamed) here first, Option.map_some]
  absent := by
    intro signature unnamed undeclared
    rw [completes.absent signature (Option.map_eq_none_iff.1 unnamed) undeclared, Option.map_none]

/-- Members that are collected from a lineage are added under the names that they get. -/
theorem Table.completesMembers_collect {σ μ ν : Type} [DecidableEq σ] (mapping : σ → ν → μ)
    (declared : Bool → ClassName → List σ) (nearest : List ClassName → σ → ν) (lineage : List ClassName)
    (known : List (σ × μ)) :
    CompletesMembers (DeclaredAt declared true lineage)
      (fun depth signature => mapping signature (nearest (lineage.drop depth) signature))
      (Assoc.find? · known)
      (Assoc.find? ·
        (known ++ (missing known (collect declared nearest true lineage [])).map (storedAs mapping))) where
  kept := by
    intro signature stored found
    rw [find?_append_missing, found, Option.some_or]
  added := by
    intro signature depth unnamed here first
    rw [find?_append_missing, unnamed, Option.none_or, find?_collect_of_first here first rfl,
      Option.map_some]
  absent := by
    intro signature unnamed undeclared
    rw [find?_append_missing, unnamed, Option.none_or, find?_collect_of_undeclared undeclared rfl,
      Option.map_none]

/-! ## The completed entry -/

namespace Table

/-- The mapping that a class has for exactly this field. -/
def field? (table : Table) (owner : ClassName) (signature : FieldSignature) : Option FieldMapping :=
  (table.find? owner).bind (·.field? signature)

/-- The mapped name that a class has for exactly this field. -/
def fieldName? (table : Table) (owner : ClassName) (signature : FieldSignature) : Option FieldName :=
  (table.field? owner signature).map FieldMapping.mapped

/-- The mapped name that a class has for exactly this method. -/
def methodName? (table : Table) (owner : ClassName) (signature : MethodSignature) : Option MethodName :=
  (table.method? owner signature).map MethodMapping.mapped

/-- The mapping of a field stands in the entry of its class. -/
theorem field?_eq_entryOf (table : Table) (owner : ClassName) :
    table.field? owner = (table.entryOf owner).field? := by
  funext signature
  exact table.bind_find?_eq_entryOf owner rfl

/-- The mapping of a method stands in the entry of its class. -/
theorem method?_eq_entryOf (table : Table) (owner : ClassName) :
    table.method? owner = (table.entryOf owner).method? := by
  funext signature
  exact table.bind_find?_eq_entryOf owner rfl

/-- The nearest name of a field is the first one that a class has for it. -/
theorem nearestFieldName_eq_findSome? (table : Table) (lineage : List ClassName)
    (signature : FieldSignature) :
    table.nearestFieldName lineage signature
      = (lineage.findSome? (table.fieldName? · signature)).getD signature.name := by
  rw [nearestFieldName, List.map_findSome?]
  rfl

/-- The nearest name of a method is the first one that a class has for it. -/
theorem nearestMethodName_eq_findSome? (table : Table) (lineage : List ClassName)
    (signature : MethodSignature) :
    table.nearestMethodName lineage signature
      = (lineage.findSome? (table.methodName? · signature)).getD signature.name := by
  rw [nearestMethodName, List.map_findSome?]
  rfl

/-- What a table is after a class was completed for the first time. -/
structure CompletedAs (table : Table) (hierarchy : Hierarchy) (name : ClassName) (after : Table) :
    Prop where
  /-- Fields get the name of the first class, from the one that declares them upwards, that has one. -/
  fields : CompletesMembers (hierarchy.BringsField name)
    (fun depth signature => FieldMapping.mk signature
      ((((hierarchy.lineage name).drop depth).findSome? (table.fieldName? · signature)).getD
        signature.name))
    (table.field? name) (after.field? name)
  /-- Methods get the name of the first class, from the one that declares them upwards, that has one. -/
  methods : CompletesMembers (hierarchy.BringsMethod name)
    (fun depth signature => MethodMapping.mk signature
      ((((hierarchy.lineage name).drop depth).findSome? (table.methodName? · signature)).getD
        signature.name))
    (table.method? name) (after.method? name)
  /-- The class keeps its own name and is marked. -/
  own : ∃ entry, after.find? name = some entry ∧ entry.name = (table.entryOf name).name
    ∧ entry.mapped = (table.entryOf name).mapped ∧ entry.completed = true
  /-- Other classes stay, but for entries that are added around this one. -/
  others : table.KeepsOthers name after
  /-- Completing the class again does nothing, whatever is known by then. -/
  again : ∀ later, after.complete later name = pure after

variable {table : Table} {name : ClassName}

/-- The entry that is completed for the first time gets what the class inherits. -/
theorem entryOf_complete (hierarchy : Hierarchy) (todo : table.isCompleted name = false) :
    (table.complete hierarchy name).value.entryOf name
      = (table.entryOf name).completeWith (table.inheritedFields hierarchy name)
        (table.inheritedMethods hierarchy name) := by
  rw [entryOf, find?_complete_self todo, Option.getD_some]

/-- Completing a class for the first time adds the fields that its lineage brings. -/
theorem completesMembers_fields (hierarchy : Hierarchy) (todo : table.isCompleted name = false) :
    CompletesMembers (hierarchy.BringsField name)
      (fun depth signature =>
        FieldMapping.mk signature (table.nearestFieldName ((hierarchy.lineage name).drop depth) signature))
      (table.field? name) ((table.complete hierarchy name).value.field? name) := by
  have brings : DeclaredAt (declaredFields hierarchy) true (hierarchy.lineage name)
      = hierarchy.BringsField name := by
    funext depth signature
    exact propext declaredAt_fields
  rw [← brings, field?_eq_entryOf, field?_eq_entryOf, entryOf_complete hierarchy todo, inheritedFields,
    collectFields_eq_collect]
  exact completesMembers_collect FieldMapping.mk _ _ _ _

/-- Completing a class for the first time adds the methods that its lineage brings. -/
theorem completesMembers_methods (hierarchy : Hierarchy) (todo : table.isCompleted name = false) :
    CompletesMembers (hierarchy.BringsMethod name)
      (fun depth signature =>
        MethodMapping.mk signature (table.nearestMethodName ((hierarchy.lineage name).drop depth) signature))
      (table.method? name) ((table.complete hierarchy name).value.method? name) := by
  have brings : DeclaredAt (declaredMethods hierarchy) true (hierarchy.lineage name)
      = hierarchy.BringsMethod name := by
    funext depth signature
    exact propext declaredAt_methods
  rw [← brings, method?_eq_entryOf, method?_eq_entryOf, entryOf_complete hierarchy todo, inheritedMethods,
    collectMethods_eq_collect]
  exact completesMembers_collect MethodMapping.mk _ _ _ _

/-- Completing a class for the first time gives it the members that its lineage brings, and changes nothing
else. -/
theorem completedAs_of_first_time (hierarchy : Hierarchy) (todo : table.isCompleted name = false) :
    table.CompletedAs hierarchy name (table.complete hierarchy name).value where
  fields := by
    simp only [← nearestFieldName_eq_findSome?]
    exact completesMembers_fields hierarchy todo
  methods := by
    simp only [← nearestMethodName_eq_findSome?]
    exact completesMembers_methods hierarchy todo
  own := ⟨_, find?_complete_self todo, rfl, rfl, rfl⟩
  others := by
    rw [complete_value, todo, if_neg Bool.false_ne_true]
    exact table.keepsOthers_update name _
  again := by
    intro later
    exact if_pos (isCompleted_complete hierarchy name)

end Table

/-! ## A kite that inherits past a private method -/

def kiteTop : ClassName :=
  ⟨"k/a", by decide +kernel⟩

def kiteMiddle : ClassName :=
  ⟨"k/b", by decide +kernel⟩

def kiteBottom : ClassName :=
  ⟨"k/c", by decide +kernel⟩

/-- The method `f()V`. -/
def kiteMethod : MethodSignature :=
  ⟨⟨"f", by decide +kernel⟩, ⟨[], none⟩⟩

def kiteName : MethodName :=
  ⟨"soar", by decide +kernel⟩

/-- `k/c` extends `k/b`, where the method is private, and `k/b` extends `k/a`, where it is not. -/
def kiteHierarchy : Hierarchy :=
  ⟨[⟨kiteBottom, some kiteMiddle, [], [], []⟩,
    ⟨kiteMiddle, some kiteTop, [], [], [⟨kiteMethod.name, kiteMethod.type, true, false⟩]⟩,
    ⟨kiteTop, none, [], [], [⟨kiteMethod.name, kiteMethod.type, false, false⟩]⟩]⟩

/-- Only `k/a` has another name for the method. -/
def kiteTable : Table :=
  ((Table.empty .standard).update kiteTop (·.mapMethod kiteMethod kiteName)).update kiteMiddle
    (·.touchMethod kiteMethod)

/-- The lineage of `k/c`. -/
theorem lineage_kiteBottom : kiteHierarchy.lineage kiteBottom = [kiteBottom, kiteMiddle, kiteTop] := by
  cbv

/-- `k/a` brings the method. -/
theorem bringsMethod_kiteTop : kiteHierarchy.BringsMethod kiteBottom 2 kiteMethod := by
  have found : (kiteHierarchy.lineage kiteBottom)[2]? = some kiteTop := by
    rw [lineage_kiteBottom]
    rfl
  exact ⟨kiteTop, _, _, found, rfl, List.mem_singleton_self _, rfl, fun _ => by decide +kernel⟩

/-- No class before `k/a` brings the method. -/
theorem not_bringsMethod_kiteMiddle :
    ∀ earlier < 2, ¬kiteHierarchy.BringsMethod kiteBottom earlier kiteMethod := by
  intro earlier below brings
  rw [← Table.declaredAt_methods, lineage_kiteBottom] at brings
  obtain ⟨owner, atDepth, declared⟩ := brings
  have isEarlier : earlier = 0 ∨ earlier = 1 := by omega
  rcases isEarlier with rfl | rfl
  · cases atDepth
    revert declared
    decide +kernel
  · cases atDepth
    revert declared
    decide +kernel

/-- The private method in between does not count, nor does the name that `k/b` has for it. -/
theorem completedAs_kiteBottom :
    kiteTable.isCompleted kiteBottom = false
      ∧ kiteTable.CompletedAs kiteHierarchy kiteBottom (kiteTable.complete kiteHierarchy kiteBottom).value
      ∧ (kiteTable.complete kiteHierarchy kiteBottom).value.method? kiteBottom kiteMethod
        = some ⟨kiteMethod, kiteName⟩ := by
  have todo : kiteTable.isCompleted kiteBottom = false := by decide +kernel
  have completed := Table.completedAs_of_first_time kiteHierarchy todo
  have named := completed.methods.added kiteMethod 2 (by decide +kernel) bringsMethod_kiteTop
    not_bringsMethod_kiteMiddle
  rw [lineage_kiteBottom] at named
  exact ⟨todo, completed, named.trans (by decide +kernel)⟩

end MixinLink
