import MixinLink.Proofs.InheritedNames
import MixinLink.Proofs.SameTables

/-!
# The order in which classes are completed

Completing a class adds names to its entry, and to completing another class these are names like all others.
So the order matters where the search for a name comes from one class to the other, which has no name for
the member until it is completed: it may take a name from its own lineage, or keep the name of the member,
and so stand in front of a class that has another name for it.

Apart from that the order makes no difference, in particular if neither class is an ancestor of the other.

Main exports: `Table.SameEntries`, `Table.Harmless`, `Table.harmless_iff`, `Table.complete_comm_iff`.
-/

namespace MixinLink

/-! ## Tables with the same entries -/

/-- What an entry says of the class itself. -/
def ClassEntry.header (entry : ClassEntry) : ClassName × String × Bool :=
  (entry.name, entry.mapped, entry.completed)

/-- Entries have the same contents if they say the same of the class and of every member. -/
theorem ClassEntry.same_iff {first second : ClassEntry} :
    first.Same second
      ↔ first.header = second.header ∧ ∀ member, first.member? member = second.member? member := by
  constructor
  · intro same
    refine ⟨by simp only [header, same.name, same.mapped, same.completed], fun member => ?_⟩
    cases member with
    | field signature => rw [member?, member?, same.field?]
    | method signature => rw [member?, member?, same.method?]
  · intro told
    obtain ⟨headers, members⟩ := told
    simp only [header, Prod.mk.injEq] at headers
    obtain ⟨name, mapped, completed⟩ := headers
    refine ⟨name, mapped, completed, fun signature => ?_, fun signature => ?_⟩
    · refine Option.map_injective ?_ (members (.field signature))
      rintro ⟨fieldSignature, fieldMapped⟩ ⟨otherSignature, otherMapped⟩ alike
      obtain ⟨sameSignature, sameText⟩ := Prod.mk.inj alike
      exact (FieldMapping.mk.injEq ..).mpr ⟨Member.field.inj sameSignature, FieldName.ext_text sameText⟩
    · refine Option.map_injective ?_ (members (.method signature))
      rintro ⟨methodSignature, methodMapped⟩ ⟨otherSignature, otherMapped⟩ alike
      obtain ⟨sameSignature, sameText⟩ := Prod.mk.inj alike
      exact (MethodMapping.mk.injEq ..).mpr ⟨Member.method.inj sameSignature, MethodName.ext_text sameText⟩

namespace Table

/-- Two tables have entries for the same classes, and these have the same contents. -/
def SameEntries (first second : Table) : Prop :=
  ∀ name, Option.Rel ClassEntry.Same (first.find? name) (second.find? name)

variable {table : Table} {hierarchy : Hierarchy} {first second name : ClassName}

/-- A table has its own entries. -/
theorem SameEntries.refl (table : Table) : table.SameEntries table :=
  (Same.refl table).find?

/-- Tables have the same entries if their entries say the same of the classes and of every member. -/
theorem sameEntries_iff {table other : Table} :
    table.SameEntries other
      ↔ ∀ name, (table.find? name).map ClassEntry.header = (other.find? name).map ClassEntry.header
        ∧ ∀ member, table.member? name member = other.member? name member := by
  apply forall_congr'
  intro name
  simp only [member?]
  cases table.find? name with
  | none => cases other.find? name <;> simp
  | some entry =>
      cases other.find? name with
      | none => simp
      | some twin => simp [ClassEntry.same_iff]

/-! ## What completing one class does to another -/

/-- Completing one class first makes no difference to the names of another: where the other one looks for a
name up to the first and finds none there, completing the first gives it the name that is found above it. -/
def Harmless (table : Table) (hierarchy : Hierarchy) (first second : ClassName) : Prop :=
  ∀ member nearer above, table.LooksUpTo hierarchy second first member nearer above →
    table.memberName? first member = none → ∀ depth, hierarchy.FirstBrings first depth member →
      table.nearestName ((hierarchy.lineage first).drop depth) member = table.nearestName above member

/-- Completing the first class adds only names that are harmless exactly if the second one gets the
same names as without it. -/
theorem harmless_iff (different : first ≠ second) (todoFirst : table.isCompleted first = false)
    (todoSecond : table.isCompleted second = false) :
    (∀ member,
      ((table.complete hierarchy first).value.complete hierarchy second).value.memberName? second member
        = (table.complete hierarchy second).value.memberName? second member)
      ↔ table.Harmless hierarchy first second := by
  have todo : (table.complete hierarchy first).value.isCompleted second = false :=
    (isCompleted_complete_of_ne hierarchy different.symm).trans todoSecond
  have completesFirst := completesMembers hierarchy todoFirst
  have completesSecond := completesMembers hierarchy todo
  rw [funext (memberName?_complete_of_ne hierarchy different.symm)] at completesSecond
  have agree {member : Member} : ∀ lower, lower ≠ first →
      (table.complete hierarchy first).value.memberName? lower member = table.memberName? lower member :=
    fun lower isOther => memberName?_complete_of_ne hierarchy isOther member
  have same_iff := completesSecond.agree_iff (completesMembers hierarchy todoSecond)
  constructor
  · intro same member nearer above looks unnamed depth brings
    obtain ⟨start, starts, way⟩ := looks.way
    have added := memberName?_complete_of_firstBrings todoFirst unnamed brings
    have found := (same_iff member).1 (same member) start looks.unnamed starts.brings starts.first
    rwa [way, nearestName_append_of_agree agree looks.nameless added,
      nearestName_append looks.nameless, unnamed,
      Option.getD_none] at found
  · intro harmless member
    refine (same_iff member).2 fun start unnamed brings isFirst => ?_
    by_contra differ
    -- a difference can only come from a name that the first class did not have before
    have gained : (table.complete hierarchy first).value.memberName? first member
        ≠ table.memberName? first member := by
      intro kept
      refine differ (nearestName_congr fun name => ?_)
      by_cases isOther : name = first
      · rw [isOther, kept]
      · exact agree name isOther
    have lacked : table.memberName? first member = none := by
      by_contra named
      obtain ⟨name, isNamed⟩ := Option.ne_none_iff_exists'.1 named
      exact gained ((completesFirst.kept member name isNamed).trans isNamed.symm)
    have brought : ∃ depth, hierarchy.Brings first depth member := by
      by_contra undeclared
      exact gained ((completesFirst.absent member lacked (not_exists.1 undeclared)).trans lacked.symm)
    obtain ⟨depth, firstBrings⟩ := Hierarchy.exists_firstBrings brought
    have added := memberName?_complete_of_firstBrings todoFirst lacked firstBrings
    obtain ⟨nearer, above, way, nameless⟩ := exists_lookUp_of_nearestName_ne agree differ
    apply differ
    rw [way, nearestName_append_of_agree agree nameless added, nearestName_append nameless, lacked,
      Option.getD_none]
    exact harmless member nearer above
      ⟨unnamed, ⟨start, ⟨brings, isFirst⟩, way⟩, nameless⟩ lacked depth firstBrings

/-- A class that is no ancestor is not looked up to. -/
theorem harmless_of_not_mem_ancestors (different : first ≠ second)
    (unrelated : first ∉ hierarchy.ancestors second) : table.Harmless hierarchy first second := by
  intro member nearer above looks
  obtain ⟨start, _, way⟩ := looks.way
  have inLineage : first ∈ hierarchy.lineage second := by
    apply List.mem_of_mem_drop (i := start)
    rw [way]
    exact List.mem_append_right _ List.mem_cons_self
  exact absurd ((List.mem_cons.1 inLineage).resolve_left different) unrelated

/-! ## Two classes in either order -/

/-- Completing a class makes entries for it and the classes around it, and marks its own. -/
theorem header_complete (hierarchy : Hierarchy) (todo : table.isCompleted first = false) (name : ClassName) :
    ((table.complete hierarchy first).value.find? name).map ClassEntry.header
      = (((table.find? name).map ClassEntry.header).or
          (if name.path <+: first.path then some (name, name.key, false) else none)).map
          fun header => (header.1, header.2.1, header.2.2 || decide (name = first)) := by
  rw [complete_value, todo, if_neg Bool.false_ne_true, find?_update]
  by_cases isFirst : name = first
  · cases table.find? name <;>
      simp [isFirst, ClassEntry.header, ClassEntry.completeWith, ClassEntry.fresh]
  · by_cases around : name.path <+: first.path
    · cases table.find? name <;> simp [isFirst, around, ClassEntry.header, ClassEntry.fresh]
    · cases table.find? name <;> simp [isFirst, around, ClassEntry.header]

/-- What entries say of the classes themselves does not depend on the order. -/
theorem header_complete_comm (different : first ≠ second) (todoFirst : table.isCompleted first = false)
    (todoSecond : table.isCompleted second = false) (name : ClassName) :
    (((table.complete hierarchy first).value.complete hierarchy second).value.find? name).map
        ClassEntry.header
      = (((table.complete hierarchy second).value.complete hierarchy first).value.find? name).map
        ClassEntry.header := by
  have todoAfterFirst := (isCompleted_complete_of_ne hierarchy different.symm).trans todoSecond
  have todoAfterSecond := (isCompleted_complete_of_ne hierarchy different).trans todoFirst
  rw [header_complete hierarchy todoAfterFirst, header_complete hierarchy todoAfterSecond,
    header_complete hierarchy todoFirst, header_complete hierarchy todoSecond]
  -- a class that is marked is made, so marking never comes before making
  have aroundFirst : name = first → name.path <+: first.path := fun same => same ▸ List.prefix_rfl
  have aroundSecond : name = second → name.path <+: second.path := fun same => same ▸ List.prefix_rfl
  cases (table.find? name).map ClassEntry.header with
  | some header => simp [Bool.or_assoc, Bool.or_comm (decide (name = first))]
  | none =>
      by_cases inFirst : name.path <+: first.path
      · by_cases inSecond : name.path <+: second.path
        · simp [inFirst, inSecond, Bool.or_comm (decide (name = first))]
        · simp [inFirst, inSecond, mt aroundSecond inSecond]
      · by_cases inSecond : name.path <+: second.path
        · simp [inFirst, inSecond, mt aroundFirst inFirst]
        · simp [inFirst, inSecond]

/-- Of two classes that are not completed, the one that comes second may get other names than without the
first, and nothing else depends on the order. -/
theorem sameEntries_complete_comm_iff (different : first ≠ second)
    (todoFirst : table.isCompleted first = false) (todoSecond : table.isCompleted second = false) :
    ((table.complete hierarchy first).value.complete hierarchy second).value.SameEntries
        ((table.complete hierarchy second).value.complete hierarchy first).value
      ↔ table.Harmless hierarchy first second ∧ table.Harmless hierarchy second first := by
  have todoAfterFirst := (isCompleted_complete_of_ne hierarchy different.symm).trans todoSecond
  have todoAfterSecond := (isCompleted_complete_of_ne hierarchy different).trans todoFirst
  have secondSame := member?_complete_eq_iff hierarchy todoSecond todoAfterFirst
    (member?_complete_of_ne hierarchy different.symm)
  have firstSame := member?_complete_eq_iff hierarchy todoFirst todoAfterSecond
    (member?_complete_of_ne hierarchy different)
  rw [sameEntries_iff, ← harmless_iff different todoFirst todoSecond,
    ← harmless_iff different.symm todoSecond todoFirst, ← forall_congr' secondSame,
      ← forall_congr' firstSame]
  constructor
  · intro same
    constructor
    · intro member
      rw [(same second).2 member, member?_complete_of_ne hierarchy different.symm]
    · intro member
      rw [← (same first).2 member, member?_complete_of_ne hierarchy different]
  · intro harmless name
    refine ⟨header_complete_comm different todoFirst todoSecond name, fun member => ?_⟩
    by_cases isFirst : name = first
    · rw [isFirst, member?_complete_of_ne hierarchy different, harmless.2]
    · rw [member?_complete_of_ne hierarchy isFirst]
      by_cases isSecond : name = second
      · rw [isSecond, harmless.1]
      · rw [member?_complete_of_ne hierarchy isSecond, member?_complete_of_ne hierarchy isFirst,
          member?_complete_of_ne hierarchy isSecond]

/-- Completing a class that was completed before does nothing, whether it comes first or second. -/
theorem complete_comm_of_completed (different : first ≠ second)
    (completed : table.isCompleted first = true) :
    ((table.complete hierarchy first).value.complete hierarchy second).value
      = ((table.complete hierarchy second).value.complete hierarchy first).value := by
  have still := (isCompleted_complete_of_ne hierarchy different).trans completed
  rw [complete_of_completed completed, complete_of_completed still]

/-- Completing two classes in either order gives the same entries exactly if the classes are the same, one of
them was completed before, or the names that each of them gets are harmless to the other. They are if neither
class is an ancestor of the other. -/
theorem complete_comm_iff (table : Table) (hierarchy : Hierarchy) (first second : ClassName) :
    (((table.complete hierarchy first).value.complete hierarchy second).value.SameEntries
        ((table.complete hierarchy second).value.complete hierarchy first).value
      ↔ (first ≠ second → table.isCompleted first = false → table.isCompleted second = false →
        table.Harmless hierarchy first second ∧ table.Harmless hierarchy second first))
      ∧ (first ∉ hierarchy.ancestors second → second ∉ hierarchy.ancestors first →
        ((table.complete hierarchy first).value.complete hierarchy second).value.SameEntries
          ((table.complete hierarchy second).value.complete hierarchy first).value) := by
  suffices characterized : _ ↔ (first ≠ second → table.isCompleted first = false →
      table.isCompleted second = false →
        table.Harmless hierarchy first second ∧ table.Harmless hierarchy second first) by
    refine ⟨characterized, fun notAbove notBelow => characterized.2 fun different _ _ => ?_⟩
    constructor
    · exact harmless_of_not_mem_ancestors different notAbove
    · exact harmless_of_not_mem_ancestors different.symm notBelow
  by_cases same : first = second
  · subst same
    exact iff_of_true (SameEntries.refl _) (absurd rfl)
  · cases todoFirst : table.isCompleted first with
    | true =>
        rw [complete_comm_of_completed same todoFirst]
        exact iff_of_true (SameEntries.refl _) (by simp)
    | false =>
        cases todoSecond : table.isCompleted second with
        | true =>
            rw [complete_comm_of_completed (Ne.symm same) todoSecond]
            exact iff_of_true (SameEntries.refl _) (by simp)
        | false =>
            rw [sameEntries_complete_comm_iff same todoFirst todoSecond]
            simp [same]

end Table

/-! ## A kite with a named interface -/

/-- `k/c` extends `k/b` and implements `k/a`, which both declare the method. -/
def forkHierarchy : Hierarchy :=
  ⟨[⟨kiteBottom, some kiteMiddle, [kiteTop], [], []⟩,
    ⟨kiteMiddle, none, [], [], [⟨kiteMethod.name, kiteMethod.type, false, false⟩]⟩,
    ⟨kiteTop, none, [], [], [⟨kiteMethod.name, kiteMethod.type, false, false⟩]⟩]⟩

/-- Only `k/a` has a name for the method. -/
def forkTable : Table :=
  (Table.empty .standard).update kiteTop (·.mapMethod kiteMethod kiteName)

/-- The lineage of `k/c`. -/
theorem lineage_forkBottom : forkHierarchy.lineage kiteBottom = [kiteBottom, kiteMiddle, kiteTop] := by
  cbv

/-- The lineage of `k/b`. -/
theorem lineage_forkMiddle : forkHierarchy.lineage kiteMiddle = [kiteMiddle] := by
  cbv

/-- `k/b` brings the method first. -/
theorem firstBrings_forkBottom : forkHierarchy.FirstBrings kiteBottom 1 (.method kiteMethod) := by
  constructor
  case brings =>
    have found : (forkHierarchy.lineage kiteBottom)[1]? = some kiteMiddle := by
      rw [lineage_forkBottom]
      rfl
    exact ⟨kiteMiddle, _, _, found, rfl, List.mem_singleton_self _, rfl, fun _ => by decide +kernel⟩
  case first =>
    intro earlier isEarlier brings
    obtain rfl : earlier = 0 := Nat.lt_one_iff.1 isEarlier
    obtain ⟨owner, info, method, isOwner, isInfo, declared, _⟩ := brings
    cases isOwner
    cases isInfo
    exact List.not_mem_nil declared

/-- Completing `k/c` looks for the name from `k/b` on. -/
theorem memberName?_complete_forkBottom {table : Table} (todo : table.isCompleted kiteBottom = false)
    (unnamed : table.memberName? kiteBottom (.method kiteMethod) = none) :
    (table.complete forkHierarchy kiteBottom).value.memberName? kiteBottom (.method kiteMethod)
      = some (table.nearestName [kiteMiddle, kiteTop] (.method kiteMethod)) := by
  rw [Table.memberName?_complete_of_firstBrings todo unnamed firstBrings_forkBottom, lineage_forkBottom]
  rfl

/-- Completing `k/b` lets the method keep its name. -/
theorem memberName?_complete_forkMiddle :
    (forkTable.complete forkHierarchy kiteMiddle).value.memberName? kiteMiddle
      (.method kiteMethod) = some "f" := by
  have todo : forkTable.isCompleted kiteMiddle = false := by decide +kernel
  have brings : forkHierarchy.Brings kiteMiddle 0 (.method kiteMethod) :=
    ⟨kiteMiddle, _, _, rfl, rfl, List.mem_singleton_self _, rfl, fun above => absurd above (Nat.lt_irrefl 0)⟩
  have unnamed : forkTable.memberName? kiteMiddle (.method kiteMethod) = none := by decide +kernel
  rw [Table.memberName?_complete_of_firstBrings todo unnamed (Hierarchy.firstBrings_zero brings),
    lineage_forkMiddle]
  decide +kernel

/-- If `k/b` is completed first, its method keeps its name and stands in front of the named one of
`k/a`: then the method of `k/c` keeps its name too. -/
theorem complete_order_matters_fork :
    ((forkTable.complete forkHierarchy kiteMiddle).value.complete forkHierarchy
        kiteBottom).value.memberName? kiteBottom (.method kiteMethod) = some "f"
      ∧ ((forkTable.complete forkHierarchy kiteBottom).value.complete forkHierarchy
        kiteMiddle).value.memberName? kiteBottom (.method kiteMethod) = some "soar"
      ∧ ¬((forkTable.complete forkHierarchy kiteMiddle).value.complete forkHierarchy
        kiteBottom).value.SameEntries
        ((forkTable.complete forkHierarchy kiteBottom).value.complete forkHierarchy kiteMiddle).value := by
  have different : kiteBottom ≠ kiteMiddle := by decide +kernel
  have todo : forkTable.isCompleted kiteBottom = false := by decide +kernel
  have unnamed : forkTable.memberName? kiteBottom (.method kiteMethod) = none := by decide +kernel
  have middleFirst : ((forkTable.complete forkHierarchy kiteMiddle).value.complete forkHierarchy
      kiteBottom).value.memberName? kiteBottom (.method kiteMethod) = some "f" := by
    rw [memberName?_complete_forkBottom
        ((Table.isCompleted_complete_of_ne forkHierarchy different).trans todo)
        ((Table.memberName?_complete_of_ne forkHierarchy different _).trans unnamed),
      Table.nearestName, List.findSome?_cons, memberName?_complete_forkMiddle]
    rfl
  have bottomFirst : ((forkTable.complete forkHierarchy kiteBottom).value.complete forkHierarchy
      kiteMiddle).value.memberName? kiteBottom (.method kiteMethod) = some "soar" := by
    rw [Table.memberName?_complete_of_ne forkHierarchy different,
      memberName?_complete_forkBottom todo unnamed]
    decide +kernel
  refine ⟨middleFirst, bottomFirst, fun same => ?_⟩
  have alike := congrArg (Option.map Prod.snd)
    ((Table.sameEntries_iff.1 same kiteBottom).2 (.method kiteMethod))
  rw [← Table.memberName?, ← Table.memberName?, middleFirst, bottomFirst] at alike
  exact absurd alike (by decide)

end MixinLink
