import MixinLink.Proofs.InheritedNames

/-!
# The names of members that are not inherited

A class does not get the private members of the classes above it. The name that such a class has for a
private member may still reach it: the search for the name of a member looks at signatures only. So if the
class, or a class between the two, brings another member of the same signature that no class has named so
far, then this member takes the name of the private one. In all other cases the name of a private member
makes no difference to the classes below.

Main exports: `Hierarchy.HidesOn`, `Table.AgreesExcept`, `Table.Exposes`, `Table.exists_renamed`,
`Table.hidden_name_matters_iff`.
-/

namespace MixinLink

/-- A class declares a member, and only as a private one. -/
def Hierarchy.HidesOn (hierarchy : Hierarchy) (owner : ClassName) : Member → Prop
  | .field signature => ∃ info, hierarchy.find? owner = some info
    ∧ (∃ field ∈ info.fields, field.signature = signature)
    ∧ ∀ field ∈ info.fields, field.signature = signature → field.isPrivate = true
  | .method signature => ∃ info, hierarchy.find? owner = some info
    ∧ (∃ method ∈ info.methods, method.signature = signature)
    ∧ ∀ method ∈ info.methods, method.signature = signature → method.isPrivate = true

/-- A private member is not brought to the classes below. -/
theorem Hierarchy.HidesOn.not_brings {hierarchy : Hierarchy} {heir owner : ClassName} {member : Member}
    {depth : Nat} (hidden : hierarchy.HidesOn owner member) (isAbove : 0 < depth)
    (atDepth : (hierarchy.lineage heir)[depth]? = some owner) : ¬hierarchy.Brings heir depth member := by
  intro brings
  cases member with
  | field signature =>
      obtain ⟨known, isKnown, _, allPrivate⟩ := hidden
      obtain ⟨_, info, field, isOwner, isInfo, declared, isSignature, visible⟩ := brings
      cases atDepth.symm.trans isOwner
      cases isKnown.symm.trans isInfo
      exact Bool.false_ne_true ((visible isAbove).symm.trans (allPrivate field declared isSignature))
  | method signature =>
      obtain ⟨known, isKnown, _, allPrivate⟩ := hidden
      obtain ⟨_, info, method, isOwner, isInfo, declared, isSignature, visible⟩ := brings
      cases atDepth.symm.trans isOwner
      cases isKnown.symm.trans isInfo
      exact Bool.false_ne_true ((visible isAbove).1.symm.trans (allPrivate method declared isSignature))

namespace Table

/-! ## Tables that differ in one name -/

/-- Another table has all names of this one, but for the name that a class has for a member: it may have
another one, or none. -/
structure AgreesExcept (table : Table) (owner : ClassName) (member : Member) (other : Table) : Prop where
  completed : ∀ name, other.isCompleted name = table.isCompleted name
  names : ∀ name known, name ≠ owner ∨ known ≠ member →
    other.memberName? name known = table.memberName? name known

variable {table other : Table} {hierarchy : Hierarchy} {heir owner : ClassName} {member : Member}

/-- Agreement goes both ways. -/
theorem AgreesExcept.symm (agree : table.AgreesExcept owner member other) :
    other.AgreesExcept owner member table :=
  ⟨fun name => (agree.completed name).symm, fun name known differs => (agree.names name known differs).symm⟩

private theorem isCompleted_eq_completed (table : Table) (name : ClassName) :
    table.isCompleted name = (table.entryOf name).completed := by
  rw [isCompleted, entryOf]
  cases table.find? name with
  | none => rfl
  | some entry => rfl

private theorem isCompleted_update {change : ClassEntry → ClassEntry}
    (keeps : ∀ entry, (change entry).completed = entry.completed) (name : ClassName) :
    (table.update owner change).isCompleted name = table.isCompleted name := by
  rw [isCompleted_eq_completed, isCompleted_eq_completed, entryOf_update]
  split
  · rename_i isOwner
    rw [keeps, isOwner]
  · rfl

private theorem agreesExcept_update {change : ClassEntry → ClassEntry}
    (completed : ∀ entry, (change entry).completed = entry.completed)
    (names : ∀ entry known, known ≠ member →
      (change entry).memberName? known = ClassEntry.memberName? entry known) :
    table.AgreesExcept owner member (table.update owner change) where
  completed := isCompleted_update completed
  names := by
    intro name known differs
    rw [memberName?_eq_entryOf, memberName?_eq_entryOf, entryOf_update]
    split
    · rename_i isOwner
      rw [names _ known (differs.resolve_left (not_not_intro isOwner)), isOwner]
    · rfl

private theorem agreesExcept_mapField (table : Table) (owner : ClassName) (signature : FieldSignature)
    (named : FieldName) :
    table.AgreesExcept owner (.field signature) (table.update owner (·.mapField signature named)) :=
  agreesExcept_update (fun _ => rfl) fun entry known isOther => by rw [memberName?_mapField, if_neg isOther]

private theorem agreesExcept_mapMethod (table : Table) (owner : ClassName) (signature : MethodSignature)
    (named : MethodName) :
    table.AgreesExcept owner (.method signature) (table.update owner (·.mapMethod signature named)) :=
  agreesExcept_update (fun _ => rfl) fun entry known isOther => by rw [memberName?_mapMethod, if_neg isOther]

/-- The name that a class has for a member can be changed alone, to another one than a given text. -/
theorem exists_renamed (table : Table) (owner : ClassName) (member : Member) (avoided : String) :
    ∃ other named, table.AgreesExcept owner member other ∧ other.memberName? owner member = some named
      ∧ named ≠ avoided := by
  obtain ⟨text, isText, differs⟩ : ∃ text, (text = "a" ∨ text = "b") ∧ text ≠ avoided := by
    by_cases taken : avoided = "a"
    · exact ⟨"b", .inr rfl, by rw [taken]; decide⟩
    · exact ⟨"a", .inl rfl, Ne.symm taken⟩
  cases member with
  | field signature =>
      have valid : isSimpleText text.toList = true := by rcases isText with rfl | rfl <;> decide +kernel
      let named : FieldName := ⟨text, valid⟩
      refine ⟨_, text, table.agreesExcept_mapField owner signature named, ?_, differs⟩
      rw [memberName?_eq_entryOf, entryOf_update, if_pos rfl, memberName?_mapField, if_pos rfl]
  | method signature =>
      have valid : isMethodText text.toList = true := by rcases isText with rfl | rfl <;> decide +kernel
      let named : MethodName := ⟨text, valid⟩
      refine ⟨_, text, table.agreesExcept_mapMethod owner signature named, ?_, differs⟩
      rw [memberName?_eq_entryOf, entryOf_update, if_pos rfl, memberName?_mapMethod, if_pos rfl]

/-! ## When a hidden name is taken -/

/-- Completing a class takes the name that a class above it has for a member: a class nearer than that one
brings the member, and no class from there on has a name for it. -/
structure Exposes (table : Table) (hierarchy : Hierarchy) (heir owner : ClassName)
    (member : Member) : Prop where
  todo : table.isCompleted heir = false
  reached : ∃ nearer above, nearer ≠ [] ∧ table.LooksUpTo hierarchy heir owner member nearer above

/-- The class takes the name, if there is one. -/
theorem Exposes.memberName?_complete (exposes : table.Exposes hierarchy heir owner member) :
    ∃ above, (table.complete hierarchy heir).value.memberName? heir member
      = some ((table.memberName? owner member).getD (table.nearestName above member)) := by
  obtain ⟨nearer, above, _, looks⟩ := exposes.reached
  obtain ⟨depth, brings, way⟩ := looks.way
  refine ⟨above, ?_⟩
  rw [memberName?_complete_of_firstBrings exposes.todo looks.unnamed brings, way,
    nearestName_append looks.nameless]

/-- The class takes the name also if it is another one. -/
theorem Exposes.memberName?_complete_of_agree (exposes : table.Exposes hierarchy heir owner member)
    (isAbove : heir ≠ owner) (agree : table.AgreesExcept owner member other) {named : String}
    (isNamed : other.memberName? owner member = some named) :
    (other.complete hierarchy heir).value.memberName? heir member = some named := by
  obtain ⟨nearer, above, _, looks⟩ := exposes.reached
  obtain ⟨depth, brings, way⟩ := looks.way
  have todo : other.isCompleted heir = false := (agree.completed heir).trans exposes.todo
  have unnamed : other.memberName? heir member = none :=
    (agree.names heir member (.inl isAbove)).trans looks.unnamed
  rw [memberName?_complete_of_firstBrings todo unnamed brings, way,
    nearestName_append_of_agree (fun lower differs => agree.names lower member (.inl differs)) looks.nameless
      isNamed]

/-- Tables that differ in one name only complete a class differently only in the member with that name, and
only if the search for its name comes to the class that has the name. -/
theorem AgreesExcept.lookUp_of_ne (agree : table.AgreesExcept owner member other) (isAbove : heir ≠ owner)
    {known : Member}
    (differ : (other.complete hierarchy heir).value.memberName? heir known
      ≠ (table.complete hierarchy heir).value.memberName? heir known) :
    known = member ∧ table.isCompleted heir = false
      ∧ ∃ nearer above, table.LooksUpTo hierarchy heir owner member nearer above := by
  have before : ∀ known, other.memberName? heir known = table.memberName? heir known :=
    fun known => agree.names heir known (.inl isAbove)
  have todo : table.isCompleted heir = false := by
    rw [Bool.eq_false_iff]
    intro completed
    rw [complete_of_completed completed,
      complete_of_completed ((agree.completed heir).trans completed)] at differ
    exact differ (before known)
  have completesOther := completesMembers hierarchy ((agree.completed heir).trans todo)
  rw [funext before] at completesOther
  have differs := mt ((completesOther.agree_iff (completesMembers hierarchy todo) known).2) differ
  simp only [not_forall] at differs
  obtain ⟨depth, unnamed, brings, first, namesDiffer⟩ := differs
  have isMember : known = member := by
    by_contra isOther
    exact namesDiffer (nearestName_congr fun name => agree.names name known (.inr isOther))
  subst isMember
  obtain ⟨nearer, above, way, nameless⟩ := exists_lookUp_of_nearestName_ne
    (fun lower isLower => agree.names lower known (.inl isLower)) namesDiffer
  exact ⟨rfl, todo, nearer, above, unnamed, ⟨depth, ⟨brings, first⟩, way⟩, nameless⟩

/-- Since a private member is not brought by its own class, the search starts below that class. -/
theorem LooksUpTo.nearer_ne_nil {nearer above : List ClassName} (isAbove : heir ≠ owner)
    (hidden : hierarchy.HidesOn owner member)
    (looks : table.LooksUpTo hierarchy heir owner member nearer above) : nearer ≠ [] := by
  rintro rfl
  obtain ⟨depth, brings, way⟩ := looks.way
  have atDepth : (hierarchy.lineage heir)[depth]? = some owner := by
    rw [← List.head?_drop, way]
    rfl
  have positive : 0 < depth := by
    apply Nat.pos_of_ne_zero
    rintro rfl
    exact isAbove (Option.some.inj atDepth)
  exact hidden.not_brings positive atDepth brings.brings

/-- The name that a class has for a private member makes a difference to completing a class below exactly if
that class is exposed to it. It makes a difference to that member only, and it is then the name that the
class below takes. -/
theorem hidden_name_matters_iff (table : Table) (isAncestor : owner ∈ hierarchy.ancestors heir)
    (hidden : hierarchy.HidesOn owner member) :
    (∀ other, table.AgreesExcept owner member other → ∀ known, known ≠ member →
        (other.complete hierarchy heir).value.memberName? heir known
          = (table.complete hierarchy heir).value.memberName? heir known)
      ∧ ((∃ other, table.AgreesExcept owner member other
          ∧ (other.complete hierarchy heir).value.memberName? heir member
            ≠ (table.complete hierarchy heir).value.memberName? heir member)
        ↔ table.Exposes hierarchy heir owner member)
      ∧ (table.Exposes hierarchy heir owner member → ∀ named, table.memberName? owner member = some named →
        (table.complete hierarchy heir).value.memberName? heir member = some named) := by
  have isAbove : heir ≠ owner :=
    (((hierarchy.breadthFirst_ancestors heir).reachable owner).1 isAncestor).1.symm
  refine ⟨fun other agree known isOther => ?_, ⟨fun differs => ?_, fun exposes => ?_⟩,
    fun exposes named isNamed => ?_⟩
  · by_contra differ
    exact isOther (agree.lookUp_of_ne isAbove differ).1
  · obtain ⟨other, agree, differ⟩ := differs
    obtain ⟨_, todo, nearer, above, looks⟩ := agree.lookUp_of_ne isAbove differ
    exact ⟨todo, nearer, above, looks.nearer_ne_nil isAbove hidden, looks⟩
  · obtain ⟨above, taken⟩ := exposes.memberName?_complete
    obtain ⟨other, named, agree, isNamed, differs⟩ := table.exists_renamed owner member
      ((table.memberName? owner member).getD (table.nearestName above member))
    refine ⟨other, agree, ?_⟩
    rw [exposes.memberName?_complete_of_agree isAbove agree isNamed, taken]
    exact fun same => differs (Option.some.inj same)
  · obtain ⟨above, taken⟩ := exposes.memberName?_complete
    rw [taken, isNamed, Option.getD_some]

end Table

/-! ## Kites with a private method -/

private theorem firstBrings_kiteTop : kiteHierarchy.FirstBrings kiteBottom 2 (.method kiteMethod) :=
  ⟨bringsMethod_kiteTop, not_bringsMethod_kiteMiddle⟩

private theorem hidesOn_kiteMiddle : kiteHierarchy.HidesOn kiteMiddle (.method kiteMethod) := by
  refine ⟨_, rfl, ⟨_, List.mem_singleton_self _, rfl⟩, fun method declared _ => ?_⟩
  rw [List.mem_singleton.1 declared]

/-- The class above `k/b` brings the method, so the name that `k/b` has for its private one makes no
difference. -/
theorem hidden_name_ignored_kite :
    kiteMiddle ∈ kiteHierarchy.ancestors kiteBottom ∧ kiteHierarchy.HidesOn kiteMiddle (.method kiteMethod)
      ∧ ∀ other, kiteTable.AgreesExcept kiteMiddle (.method kiteMethod) other → ∀ known,
        (other.complete kiteHierarchy kiteBottom).value.memberName? kiteBottom known
          = (kiteTable.complete kiteHierarchy kiteBottom).value.memberName? kiteBottom known := by
  have ancestors : kiteHierarchy.ancestors kiteBottom = [kiteMiddle, kiteTop] :=
    (List.cons.inj lineage_kiteBottom).2
  have isAncestor : kiteMiddle ∈ kiteHierarchy.ancestors kiteBottom := by simp [ancestors]
  obtain ⟨others, matters, _⟩ := Table.hidden_name_matters_iff kiteTable isAncestor hidesOn_kiteMiddle
  refine ⟨isAncestor, hidesOn_kiteMiddle, fun other agree known => ?_⟩
  by_cases isMember : known = .method kiteMethod
  · subst isMember
    by_contra differ
    obtain ⟨_, nearer, above, nonempty, looks⟩ := matters.1 ⟨other, agree, differ⟩
    obtain ⟨depth, brings, way⟩ := looks.way
    rw [brings.unique firstBrings_kiteTop, lineage_kiteBottom] at way
    have short := congrArg List.length way
    have := List.length_pos_iff.2 nonempty
    simp at short
    omega
  · exact others other agree known isMember

/-- `k/c` extends `k/b`, and both declare the method; that of `k/b` is private. -/
def rivalHierarchy : Hierarchy :=
  ⟨[⟨kiteBottom, some kiteMiddle, [], [], [⟨kiteMethod.name, kiteMethod.type, false, false⟩]⟩,
    ⟨kiteMiddle, none, [], [], [⟨kiteMethod.name, kiteMethod.type, true, false⟩]⟩]⟩

/-- `k/b` has no name for the method. -/
def rivalTable : Table :=
  (Table.empty .standard).update kiteMiddle id

/-- `k/b` has another name for the method. -/
def namedRivalTable : Table :=
  rivalTable.update kiteMiddle (·.mapMethod kiteMethod kiteName)

private theorem lineage_rivalBottom : rivalHierarchy.lineage kiteBottom = [kiteBottom, kiteMiddle] := by
  cbv

private theorem memberName?_complete_rivalBottom {table : Table}
    (todo : table.isCompleted kiteBottom = false)
    (unnamed : table.memberName? kiteBottom (.method kiteMethod) = none) :
    (table.complete rivalHierarchy kiteBottom).value.memberName? kiteBottom (.method kiteMethod)
      = some (table.nearestName [kiteBottom, kiteMiddle] (.method kiteMethod)) := by
  have brings : rivalHierarchy.Brings kiteBottom 0 (.method kiteMethod) :=
    ⟨kiteBottom, _, _, rfl, rfl, List.mem_singleton_self _, rfl, fun above => absurd above (Nat.lt_irrefl 0)⟩
  rw [Table.memberName?_complete_of_firstBrings todo unnamed (Hierarchy.firstBrings_zero brings),
    lineage_rivalBottom]
  rfl

/-- The method of `k/c` takes the name of the private method of `k/b`, which it does not inherit: removing
that name changes it. -/
theorem hidden_name_taken_rival :
    kiteMiddle ∈ rivalHierarchy.ancestors kiteBottom
      ∧ rivalHierarchy.HidesOn kiteMiddle (.method kiteMethod)
      ∧ namedRivalTable.AgreesExcept kiteMiddle (.method kiteMethod) rivalTable
      ∧ (namedRivalTable.complete rivalHierarchy kiteBottom).value.memberName? kiteBottom
        (.method kiteMethod)
        = some "soar"
      ∧ (rivalTable.complete rivalHierarchy kiteBottom).value.memberName? kiteBottom (.method kiteMethod)
        = some "f" := by
  have ancestors : rivalHierarchy.ancestors kiteBottom = [kiteMiddle] :=
    (List.cons.inj lineage_rivalBottom).2
  have agree : rivalTable.AgreesExcept kiteMiddle (.method kiteMethod) namedRivalTable :=
    Table.agreesExcept_mapMethod _ _ _ _
  refine ⟨by simp [ancestors], ?_, agree.symm, ?_, ?_⟩
  · refine ⟨_, rfl, ⟨_, List.mem_singleton_self _, rfl⟩, fun method declared _ => ?_⟩
    rw [List.mem_singleton.1 declared]
  · rw [memberName?_complete_rivalBottom (by decide +kernel) (by decide +kernel)]
    decide +kernel
  · rw [memberName?_complete_rivalBottom (by decide +kernel) (by decide +kernel)]
    decide +kernel

end MixinLink
