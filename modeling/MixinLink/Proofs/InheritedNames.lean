import MixinLink.Proofs.Ancestors
import MixinLink.Proofs.CompletedMembers

/-!
# Where completing a class looks for names

Completing a class names its fields and its methods by the same rule, so both are taken together here as
members. For a member without a name the search starts at the first class of the lineage that brings the
member, and ends at the first class from there on that has a name for it. What the classes after that one
have for the member does not matter.

Main exports: `Member`, `Table.memberName?`, `Hierarchy.FirstBrings`, `Table.nearestName`,
`Table.completesMembers`, `Table.memberName?_complete_of_firstBrings`, `Table.memberName?_complete_of_ne`,
`CompletesMembers.agree_iff`, `Table.LooksUpTo`, `Table.exists_lookUp_of_nearestName_ne`.
-/

namespace MixinLink

/-! ## Fields and methods alike -/

/-- A field or a method, told apart from others by its signature. -/
inductive Member where
  | field (signature : FieldSignature)
  | method (signature : MethodSignature)
deriving DecidableEq

/-- The name that a member has without being mapped. -/
def Member.name : Member → String
  | field signature => signature.name.text
  | method signature => signature.name.text

/-- The class at some depth of the lineage of a class declares a member that the class has. -/
def Hierarchy.Brings (hierarchy : Hierarchy) (name : ClassName) (depth : Nat) : Member → Prop
  | .field signature => hierarchy.BringsField name depth signature
  | .method signature => hierarchy.BringsMethod name depth signature

/-- The class at some depth is the first one of the lineage that brings a member. -/
structure Hierarchy.FirstBrings (hierarchy : Hierarchy) (name : ClassName) (depth : Nat) (member : Member) :
    Prop where
  brings : hierarchy.Brings name depth member
  first : ∀ earlier < depth, ¬hierarchy.Brings name earlier member

/-- Only one class brings a member first. -/
theorem Hierarchy.FirstBrings.unique {hierarchy : Hierarchy} {name : ClassName} {member : Member}
    {depth other : Nat} (one : hierarchy.FirstBrings name depth member)
    (two : hierarchy.FirstBrings name other member) : depth = other := by
  apply Nat.le_antisymm
  · exact Nat.le_of_not_lt fun earlier => one.first other earlier two.brings
  · exact Nat.le_of_not_lt fun earlier => two.first depth earlier one.brings

/-- Whatever a class declares itself it brings first. -/
theorem Hierarchy.firstBrings_zero {hierarchy : Hierarchy} {name : ClassName} {member : Member}
    (brings : hierarchy.Brings name 0 member) : hierarchy.FirstBrings name 0 member :=
  ⟨brings, fun earlier isEarlier => absurd isEarlier (Nat.not_lt_zero earlier)⟩

/-- If a class brings a member, one of them brings it first. -/
theorem Hierarchy.exists_firstBrings {hierarchy : Hierarchy} {name : ClassName} {member : Member}
    (brought : ∃ depth, hierarchy.Brings name depth member) :
    ∃ depth, hierarchy.FirstBrings name depth member := by
  classical
  exact ⟨Nat.find brought, Nat.find_spec brought, fun _ => Nat.find_min brought⟩

/-- The mapping that an entry has for exactly this member: the signature that is stored, and the name. -/
def ClassEntry.member? (entry : ClassEntry) : Member → Option (Member × String)
  | .field signature => (entry.field? signature).map fun field => (.field field.signature, field.mapped.text)
  | .method signature =>
    (entry.method? signature).map fun method => (.method method.signature, method.mapped.text)

/-- The mapped name that an entry has for exactly this member. -/
def ClassEntry.memberName? (entry : ClassEntry) (member : Member) : Option String :=
  (entry.member? member).map Prod.snd

/-- The name of a field in an entry, as a text. -/
theorem ClassEntry.memberName?_field (entry : ClassEntry) (signature : FieldSignature) :
    entry.memberName? (.field signature) = (Assoc.find? signature entry.fields).map (·.mapped.text) :=
  Option.map_map ..

/-- The name of a method in an entry, as a text. -/
theorem ClassEntry.memberName?_method (entry : ClassEntry) (signature : MethodSignature) :
    entry.memberName? (.method signature) = (Assoc.find? signature entry.methods).map (·.mapped.text) :=
  Option.map_map ..

namespace Table

/-- The mapping that a class has for exactly this member. -/
def member? (table : Table) (owner : ClassName) (member : Member) : Option (Member × String) :=
  (table.find? owner).bind (·.member? member)

/-- The mapped name that a class has for exactly this member. -/
def memberName? (table : Table) (owner : ClassName) (member : Member) : Option String :=
  (table.member? owner member).map Prod.snd

/-- The mapping of a member stands in the entry of the class. -/
theorem member?_eq_entryOf (table : Table) (owner : ClassName) (member : Member) :
    table.member? owner member = (table.entryOf owner).member? member := by
  apply bind_find?_eq_entryOf
  cases member with
  | field signature => rfl
  | method signature => rfl

/-- The name of a member stands in the entry of the class. -/
theorem memberName?_eq_entryOf (table : Table) (owner : ClassName) (member : Member) :
    table.memberName? owner member = (table.entryOf owner).memberName? member := by
  rw [memberName?, member?_eq_entryOf, ClassEntry.memberName?]

/-- The mapping of a field, as one of a member. -/
theorem member?_field (table : Table) (owner : ClassName) (signature : FieldSignature) :
    table.member? owner (.field signature)
      = (table.field? owner signature).map fun field => (.field field.signature, field.mapped.text) := by
  rw [member?_eq_entryOf, field?_eq_entryOf]
  rfl

/-- The mapping of a method, as one of a member. -/
theorem member?_method (table : Table) (owner : ClassName) (signature : MethodSignature) :
    table.member? owner (.method signature)
      = (table.method? owner signature).map fun method =>
        (.method method.signature, method.mapped.text) := by
  rw [member?_eq_entryOf, method?_eq_entryOf]
  rfl

/-- The name of a field, as a text. -/
theorem memberName?_field (table : Table) (owner : ClassName) (signature : FieldSignature) :
    table.memberName? owner (.field signature) = (table.fieldName? owner signature).map FieldName.text := by
  rw [memberName?, member?_field, fieldName?, Option.map_map, Option.map_map]
  rfl

/-- The name of a method, as a text. -/
theorem memberName?_method (table : Table) (owner : ClassName) (signature : MethodSignature) :
    table.memberName? owner (.method signature)
      = (table.methodName? owner signature).map MethodName.text := by
  rw [memberName?, member?_method, methodName?, Option.map_map, Option.map_map]
  rfl

/-- Mapping a field gives it a name, and leaves the others. -/
theorem memberName?_mapField (entry : ClassEntry) (signature : FieldSignature) (named : FieldName)
    (known : Member) :
    (entry.mapField signature named).memberName? known
      = if known = .field signature then some named.text else entry.memberName? known := by
  cases known with
  | method other => rfl
  | field other =>
      rw [ClassEntry.memberName?_field, ClassEntry.memberName?_field, ClassEntry.mapField,
        Assoc.find?_upsert]
      by_cases same : signature = other
      · simp [same]
      · simp [same, Ne.symm same]

/-- Mapping a method gives it a name, and leaves the others. -/
theorem memberName?_mapMethod (entry : ClassEntry) (signature : MethodSignature) (named : MethodName)
    (known : Member) :
    (entry.mapMethod signature named).memberName? known
      = if known = .method signature then some named.text else entry.memberName? known := by
  cases known with
  | field other => rfl
  | method other =>
      rw [ClassEntry.memberName?_method, ClassEntry.memberName?_method, ClassEntry.mapMethod,
        Assoc.find?_upsert]
      by_cases same : signature = other
      · simp [same]
      · simp [same, Ne.symm same]

/-- Adding a field gives it its own name unless it has one. -/
theorem memberName?_touchField (entry : ClassEntry) (signature : FieldSignature) (known : Member) :
    (entry.touchField signature).memberName? known
      = if known = .field signature then some ((entry.memberName? known).getD known.name)
        else entry.memberName? known := by
  cases known with
  | method other => rfl
  | field other =>
      rw [ClassEntry.memberName?_field, ClassEntry.memberName?_field, ClassEntry.touchField,
        Assoc.find?_upsert]
      by_cases same : signature = other
      · simp only [same, Member.name, if_pos]
        cases Assoc.find? other entry.fields with
        | none => rfl
        | some mapping => rfl
      · simp [same, Ne.symm same]

/-- Adding a method gives it its own name unless it has one. -/
theorem memberName?_touchMethod (entry : ClassEntry) (signature : MethodSignature) (known : Member) :
    (entry.touchMethod signature).memberName? known
      = if known = .method signature then some ((entry.memberName? known).getD known.name)
        else entry.memberName? known := by
  cases known with
  | field other => rfl
  | method other =>
      rw [ClassEntry.memberName?_method, ClassEntry.memberName?_method, ClassEntry.touchMethod,
        Assoc.find?_upsert]
      by_cases same : signature = other
      · simp only [same, Member.name, if_pos]
        cases Assoc.find? other entry.methods with
        | none => rfl
        | some mapping => rfl
      · simp [same, Ne.symm same]

/-- The mapped name that the nearest of some classes has for a member, which keeps its name if there is
none. -/
def nearestName (table : Table) (lineage : List ClassName) (member : Member) : String :=
  (lineage.findSome? (table.memberName? · member)).getD member.name

/-- The nearest name of a field, as a text. -/
theorem nearestName_field (table : Table) (lineage : List ClassName) (signature : FieldSignature) :
    table.nearestName lineage (.field signature) = (table.nearestFieldName lineage signature).text := by
  simp only [nearestName, memberName?_field, nearestFieldName_eq_findSome?]
  rw [← Option.getD_map FieldName.text, List.map_findSome?]
  rfl

/-- The nearest name of a method, as a text. -/
theorem nearestName_method (table : Table) (lineage : List ClassName) (signature : MethodSignature) :
    table.nearestName lineage (.method signature) = (table.nearestMethodName lineage signature).text := by
  simp only [nearestName, memberName?_method, nearestMethodName_eq_findSome?]
  rw [← Option.getD_map MethodName.text, List.map_findSome?]
  rfl

end Table

/-- Two ways to complete a class give a member the same name exactly if it has one already, or both find the
same name for it. -/
theorem CompletesMembers.agree_iff {σ ν : Type} {brings : Nat → σ → Prop} {nearest other : Nat → σ → ν}
    {before after afterOther : σ → Option ν} (completes : CompletesMembers brings nearest before after)
    (completesOther : CompletesMembers brings other before afterOther) (signature : σ) :
    after signature = afterOther signature
      ↔ ∀ depth, before signature = none → brings depth signature →
        (∀ earlier < depth, ¬brings earlier signature) →
        nearest depth signature = other depth signature := by
  cases named : before signature with
  | some name =>
      rw [completes.kept signature name named, completesOther.kept signature name named]
      simp
  | none =>
      constructor
      · intro same depth _ here first
        rw [completes.added signature depth named here first,
          completesOther.added signature depth named here first] at same
        exact Option.some.inj same
      · intro agree
        by_cases brought : ∃ depth, brings depth signature
        · classical
          have here := Nat.find_spec brought
          have first : ∀ earlier < Nat.find brought, ¬brings earlier signature :=
            fun _ => Nat.find_min brought
          rw [completes.added signature _ named here first,
            completesOther.added signature _ named here first,
            agree _ rfl here first]
        · have undeclared := not_exists.1 brought
          rw [completes.absent signature named undeclared, completesOther.absent signature named undeclared]

namespace Table

variable {table other : Table} {hierarchy : Hierarchy} {name heir owner : ClassName} {member : Member}

/-- Completing a class for the first time maps its members, each under its own signature, to the names of
the nearest classes that have names. -/
theorem completesMappings (hierarchy : Hierarchy) (todo : table.isCompleted name = false) :
    CompletesMembers (hierarchy.Brings name)
      (fun depth member => (member, table.nearestName ((hierarchy.lineage name).drop depth) member))
      (table.member? name) ((table.complete hierarchy name).value.member? name) := by
  have fields := (completesMembers_fields hierarchy todo).map fun field =>
    (Member.field field.signature, field.mapped.text)
  have methods := (completesMembers_methods hierarchy todo).map fun method =>
    (Member.method method.signature, method.mapped.text)
  constructor
  case kept =>
    intro member
    cases member with
    | field signature =>
        rw [member?_field, member?_field]
        exact fields.kept signature
    | method signature =>
        rw [member?_method, member?_method]
        exact methods.kept signature
  case added =>
    intro member depth
    cases member with
    | field signature =>
        rw [member?_field, member?_field, nearestName_field]
        exact fields.added signature depth
    | method signature =>
        rw [member?_method, member?_method, nearestName_method]
        exact methods.added signature depth
  case absent =>
    intro member
    cases member with
    | field signature =>
        rw [member?_field, member?_field]
        exact fields.absent signature
    | method signature =>
        rw [member?_method, member?_method]
        exact methods.absent signature

/-- Completing a class for the first time names its members after the nearest classes that have names. -/
theorem completesMembers (hierarchy : Hierarchy) (todo : table.isCompleted name = false) :
    CompletesMembers (hierarchy.Brings name)
      (fun depth => table.nearestName ((hierarchy.lineage name).drop depth))
      (table.memberName? name) ((table.complete hierarchy name).value.memberName? name) :=
  (completesMappings hierarchy todo).map Prod.snd

/-- Two ways to complete a class map a member alike exactly if they give it the same name. -/
theorem member?_complete_eq_iff (hierarchy : Hierarchy) (todo : table.isCompleted name = false)
    (otherTodo : other.isCompleted name = false)
    (same : ∀ member, other.member? name member = table.member? name member) (member : Member) :
    (other.complete hierarchy name).value.member? name member
        = (table.complete hierarchy name).value.member? name member
      ↔ (other.complete hierarchy name).value.memberName? name member
        = (table.complete hierarchy name).value.memberName? name member := by
  have completes := completesMappings hierarchy otherTodo
  rw [funext same] at completes
  have sameNames := (completes.map Prod.snd).agree_iff (completesMembers hierarchy todo) member
  refine (completes.agree_iff (completesMappings hierarchy todo) member).trans (.trans ?_ sameNames.symm)
  simp only [Prod.mk.injEq, true_and, Option.map_eq_none_iff]

/-- A member without a name gets the nearest one, from the first class on that brings it. -/
theorem memberName?_complete_of_firstBrings {depth : Nat} (todo : table.isCompleted name = false)
    (unnamed : table.memberName? name member = none) (brings : hierarchy.FirstBrings name depth member) :
    (table.complete hierarchy name).value.memberName? name member
      = some (table.nearestName ((hierarchy.lineage name).drop depth) member) :=
  (completesMembers hierarchy todo).added member depth unnamed brings.brings brings.first

/-! ## What completing leaves alone -/

/-- Completing a class leaves the members of the others. -/
theorem member?_complete_of_ne (hierarchy : Hierarchy) (different : name ≠ heir) (member : Member) :
    (table.complete hierarchy heir).value.member? name member = table.member? name member := by
  rw [member?_eq_entryOf, member?_eq_entryOf, complete_value]
  split
  · rfl
  · rw [entryOf_update, if_neg different]

/-- Completing a class leaves the names of the others. -/
theorem memberName?_complete_of_ne (hierarchy : Hierarchy) (different : name ≠ heir) (member : Member) :
    (table.complete hierarchy heir).value.memberName? name member = table.memberName? name member := by
  rw [memberName?, member?_complete_of_ne hierarchy different, memberName?]

/-- Completing a class completes no other. -/
theorem isCompleted_complete_of_ne (hierarchy : Hierarchy) (different : name ≠ heir) :
    (table.complete hierarchy heir).value.isCompleted name = table.isCompleted name := by
  rw [complete_value]
  split
  · rfl
  · exact isCompleted_update_of_ne different _

/-! ## How far the search for a name goes -/

/-- Completing a class looks for the name of a member up to some class: the classes from the first one that
brings the member have no name for it. -/
structure LooksUpTo (table : Table) (hierarchy : Hierarchy) (heir owner : ClassName) (member : Member)
    (nearer above : List ClassName) : Prop where
  unnamed : table.memberName? heir member = none
  way : ∃ depth, hierarchy.FirstBrings heir depth member
    ∧ (hierarchy.lineage heir).drop depth = nearer ++ owner :: above
  nameless : ∀ lower ∈ nearer, table.memberName? lower member = none

/-- A search that comes to a class goes on above it if the class has no name. -/
theorem nearestName_append {nearer above : List ClassName}
    (nameless : ∀ lower ∈ nearer, table.memberName? lower member = none) :
    table.nearestName (nearer ++ owner :: above) member
      = (table.memberName? owner member).getD (table.nearestName above member) := by
  have nothing : nearer.findSome? (table.memberName? · member) = none :=
    List.findSome?_eq_none_iff.2 nameless
  rw [nearestName, List.findSome?_append, nothing, Option.none_or, List.findSome?_cons]
  cases table.memberName? owner member with
  | none => rfl
  | some named => rfl

/-- A table that differs in the names of one class only finds the name of that class, if the search comes to
it. -/
theorem nearestName_append_of_agree {nearer above : List ClassName} {named : String}
    (agree : ∀ lower, lower ≠ owner → other.memberName? lower member = table.memberName? lower member)
    (nameless : ∀ lower ∈ nearer, table.memberName? lower member = none)
    (isNamed : other.memberName? owner member = some named) :
    other.nearestName (nearer ++ owner :: above) member = named := by
  induction nearer with
  | nil => simp [nearestName, isNamed]
  | cons lower nearer ih =>
      by_cases same : lower = owner
      · simp [nearestName, same, isNamed]
      · have unnamed : other.memberName? lower member = none := by
          rw [agree lower same]
          exact nameless lower List.mem_cons_self
        have later := ih fun lower inRest => nameless lower (List.mem_cons_of_mem _ inRest)
        rw [nearestName, List.cons_append, List.findSome?_cons, unnamed]
        exact later

/-- Tables with the same names find the same names. -/
theorem nearestName_congr {lineage : List ClassName}
    (same : ∀ name, other.memberName? name member = table.memberName? name member) :
    other.nearestName lineage member = table.nearestName lineage member := by
  simp only [nearestName, same]

/-- Tables that differ in the names of one class only find different names only if the search comes to that
class. -/
theorem exists_lookUp_of_nearestName_ne {lineage : List ClassName}
    (agree : ∀ lower, lower ≠ owner → other.memberName? lower member = table.memberName? lower member)
    (differ : other.nearestName lineage member ≠ table.nearestName lineage member) :
    ∃ nearer above, lineage = nearer ++ owner :: above
      ∧ ∀ lower ∈ nearer, table.memberName? lower member = none := by
  induction lineage with
  | nil => exact absurd rfl differ
  | cons first rest ih =>
      by_cases isOwner : first = owner
      · exact ⟨[], rest, by rw [isOwner, List.nil_append], by simp⟩
      · have alike := agree first isOwner
        rw [nearestName, nearestName, List.findSome?_cons, List.findSome?_cons, alike] at differ
        cases unnamed : table.memberName? first member with
        | some named =>
            rw [unnamed] at differ
            exact absurd rfl differ
        | none =>
            rw [unnamed] at differ
            obtain ⟨nearer, above, split, nameless⟩ := ih differ
            refine ⟨first :: nearer, above, by rw [split, List.cons_append], fun lower inNearer => ?_⟩
            rcases List.mem_cons.1 inNearer with rfl | later
            · exact unnamed
            · exact nameless lower later

end Table

end MixinLink
