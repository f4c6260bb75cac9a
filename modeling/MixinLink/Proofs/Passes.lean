import MixinLink.Proofs.Images
import MixinLink.Proofs.Inheritance
import MixinLink.Proofs.Undisturbed

/-!
# Several passes

A pass goes over all source files and starts from the table that the pass before it has left, so it sees
the names that earlier passes derived. It does not see all of them through inheritance: a class that an
earlier pass completed keeps the names that it was completed with. So an injection point at an inherited
method is given the name that the ancestor has at the start of the last pass if the class was not
completed before that pass, and the name of the class's own entry if it was.

Main exports: `remapPasses_succ`, `PassVisit`, `mem_edits_remapUnits`, `edits_of_inherited_point`.
-/

namespace MixinLink

open Relation (ReflTransGen)

/-! ## The last pass -/

section Passes

variable (hierarchy : Hierarchy) (units : List SourceUnit)

/-- One pass more is a pass from where the others end, whatever is counted. -/
theorem value_runPasses_succ (total other remaining : Nat) (outputs more : List Output) (table : Table) :
    (runPasses hierarchy units total (remaining + 1) outputs table).value
      = (remapUnits hierarchy (runPasses hierarchy units other remaining more table).value.2
          units).value := by
  induction remaining generalizing outputs more table with
  | zero => rfl
  | succ remaining ih =>
      -- both sides make their first pass from the same table
      exact ih (remapUnits hierarchy table units).value.1 (remapUnits hierarchy table units).value.1
        (remapUnits hierarchy table units).value.2

/-- The last pass starts from the table that the passes before it leave, and its outputs count. -/
theorem remapPasses_succ (table : Table) (passes : Nat) :
    (remapPasses hierarchy table units (passes + 1)).value
      = (remapUnits hierarchy (remapPasses hierarchy table units passes).value.2 units).value :=
  value_runPasses_succ hierarchy units _ _ passes _ _ table

end Passes

/-- The visits of a pass over source files: each file is visited at the table that the files before it
leave. -/
def PassVisit (hierarchy : Hierarchy) (units : List SourceUnit) (start : Table) (visit : Visit)
    (now : Table) : Prop :=
  ∃ before unit after, units = before ++ unit :: after
    ∧ Visited hierarchy unit (remapUnits hierarchy start before).value.2 visit now

section Visits

variable {hierarchy : Hierarchy} {units : List SourceUnit} {start now : Table} {visit : Visit}

/-- A visit is one of the first file, or one of the files after it. -/
theorem PassVisit.cons_iff {unit : SourceUnit} :
    PassVisit hierarchy (unit :: units) start visit now
      ↔ Visited hierarchy unit start visit now
        ∨ PassVisit hierarchy units (remapUnit hierarchy start unit).value.2 visit now := by
  constructor
  · rintro ⟨before, _, after, whole, visited⟩
    cases before with
    | nil =>
        cases whole
        exact .inl visited
    | cons _ before =>
        cases whole
        exact .inr ⟨before, _, after, rfl, visited⟩
  · rintro (visited | ⟨before, _, after, rfl, visited⟩)
    · exact ⟨[], unit, units, rfl, visited⟩
    · exact ⟨unit :: before, _, after, rfl, visited⟩

/-- The edits of a pass are the edits of its visits. -/
theorem mem_edits_remapUnits {edit : LiteralEdit} :
    (∃ output ∈ (remapUnits hierarchy start units).value.1, edit ∈ output.edits)
      ↔ ∃ visit now, PassVisit hierarchy units start visit now ∧ edit ∈ visit.edits hierarchy now := by
  induction units generalizing start with
  | nil =>
      constructor
      · rintro ⟨_, member, _⟩
        cases member
      · rintro ⟨_, _, ⟨before, _, _, whole, _⟩, _⟩
        cases before <;> cases whole
  | cons unit rest ih =>
      have outputs : (remapUnits hierarchy start (unit :: rest)).value.1
          = (remapUnit hierarchy start unit).value.1
            :: (remapUnits hierarchy (remapUnit hierarchy start unit).value.2 rest).value.1 := rfl
      simp only [outputs, List.mem_cons, or_and_right, exists_or, exists_eq_left, mem_edits_remapUnit, ih,
        PassVisit.cons_iff]

/-! ## Tables on the way -/

/-- There may be more declarations around. -/
theorem Change.mono {decls more : List ClassDecl} (among : ∀ decl ∈ decls, decl ∈ more)
    {before after : Table} (step : Change hierarchy decls before after) :
    Change hierarchy more before after := by
  cases step with
  | complete name => exact .complete _ name
  | lookUp owner signature => exact .lookUp _ owner signature
  | nameField declared member maps own given => exact .nameField (among _ declared) member maps own given
  | nameMethod declared member maps own given => exact .nameMethod (among _ declared) member maps own given
  | nameAccessor declared member marked parsed maps given =>
      exact .nameAccessor (among _ declared) member marked parsed maps given

/-- There may be more declarations around. -/
theorem Evolves.among {decls more : List ClassDecl} (among : ∀ decl ∈ decls, decl ∈ more)
    {before after : Table} (changes : Evolves hierarchy decls before after) :
    Evolves hierarchy more before after :=
  ReflTransGen.mono (fun _ _ => Change.mono among) _ _ changes

/-- Remapping source files changes a sound table only by the changes that are listed. -/
theorem evolves_remapUnits {table : Table} (sound : table.Sound) {some all : List SourceUnit}
    (among : ∀ unit ∈ some, unit ∈ all) :
    Evolves hierarchy (all.flatMap SourceUnit.walk) table (remapUnits hierarchy table some).value.2 := by
  induction some generalizing table with
  | nil => exact .refl
  | cons unit rest ih =>
      have declared : ∀ decl ∈ unit.walk, decl ∈ all.flatMap SourceUnit.walk := fun decl member =>
        List.mem_flatMap.2 ⟨unit, among unit List.mem_cons_self, member⟩
      have first := Evolves.among declared (evolves_remapUnit sound hierarchy unit)
      exact first.trans
        (ih (sound.evolves first) fun unit member => among unit (List.mem_cons_of_mem _ member))

/-- So do several passes. -/
theorem evolves_remapPasses {table : Table} (sound : table.Sound) (units : List SourceUnit) (passes : Nat) :
    Evolves hierarchy (units.flatMap SourceUnit.walk) table
      (remapPasses hierarchy table units passes).value.2 := by
  induction passes with
  | zero => exact .refl
  | succ passes ih =>
      rw [remapPasses_succ]
      exact ih.trans (evolves_remapUnits (sound.evolves ih) fun _ member => member)

/-- The table of a visit evolves from the start of the pass. -/
theorem PassVisit.evolves (sound : start.Sound) (visited : PassVisit hierarchy units start visit now) :
    Evolves hierarchy (units.flatMap SourceUnit.walk) start now := by
  obtain ⟨before, unit, after, rfl, visited⟩ := visited
  have earlier : Evolves hierarchy ((before ++ unit :: after).flatMap SourceUnit.walk) start
      (remapUnits hierarchy start before).value.2 :=
    evolves_remapUnits sound fun _ member => List.mem_append_left _ member
  refine earlier.trans (Evolves.among (fun decl member => ?_) (visited.evolves (sound.evolves earlier)))
  exact List.mem_flatMap.2 ⟨unit, by simp, member⟩

end Visits

/-! ## Injection points at inherited methods -/

section Points

variable {hierarchy : Hierarchy} {start now : Table} {place : Place} {point : PointData}
  {target : ParsedLiteral PointReference} {heir : ClassName} {signature : MethodSignature}

/-- An injection point at a method of a known class is edited to the name in the completed entry. -/
theorem mem_edits_point_of_method? {decls : List ClassDecl} {named : MethodName} {type : MethodType}
    {mapped : ClassName} (sound : start.Sound) (changes : Evolves hierarchy decls start now)
    (isTarget : point.target = some target)
    (parsed : target.parsed = some (.ofMember heir (.method signature)))
    (known : (hierarchy.find? heir).isSome = true)
    (isNamed : (now.complete hierarchy heir).value.method? heir signature = some ⟨signature, named⟩)
    (mapsClass : start.mapClass heir = .ok mapped)
    (mapsType : start.mapMethodType signature.type = .ok type) (edit : LiteralEdit) :
    edit ∈ (Visit.point place point).edits hierarchy now
      ↔ target.literal.value ≠ writePointMember mapped (.method ⟨named, type⟩)
        ∧ edit = ⟨target.literal.span, target.literal.value,
          writePointMember mapped (.method ⟨named, type⟩)⟩ := by
  have resolved : (resolveClass hierarchy heir now).table = (now.complete hierarchy heir).value := by
    rw [run_resolveClass, Option.isNone_eq_false_iff.2 known, Bool.and_false, if_neg Bool.false_ne_true]
  have completed := changes.tail (.complete now heir)
  have frame : start.Undisturbed decls (now.complete hierarchy heir).value := .evolves sound completed
  have isImage : (now.complete hierarchy heir).value.PointImage (.ofMember heir (.method signature))
      (.ofMember mapped (.method ⟨named, type⟩)) :=
    .ofMember ((frame.mapClass heir).trans mapsClass)
      (.method isNamed ((frame.mapMethodType signature.type).trans mapsType))
  refine (mem_edits_remapPoint_member (sound.evolves changes) isTarget parsed).trans ?_
  rw [resolved]
  constructor
  · rintro ⟨image, isOther, changes⟩
    have same : image = .ofMember mapped (.method ⟨named, type⟩) :=
      isOther.unique (sound.evolves completed) isImage
    rw [same] at changes
    exact changes
  · intro changes
    exact ⟨_, isImage, changes⟩

/-- The last of several passes comes to an injection point at a method that its class inherits, and the
ancestor that declares the method keeps its name for it during the pass. If the class was not completed
before the pass, the point is given the name of the ancestor. If it was, then the point is given the name
that the class was completed with: the one that its ancestors had at that moment. -/
theorem edits_of_inherited_point (reachable : start.Reachable) {units : List SourceUnit} {passes : Nat}
    {last : Table} {owner : ClassName} {mapped : MethodName}
    (undeclared : ∀ decl ∈ units.flatMap SourceUnit.walk, decl.name ≠ heir)
    (untouched : start.Untouched heir signature)
    (own : signature ∉ Table.declaredMethods hierarchy true heir)
    (inherited : hierarchy.inheritedFrom? heir signature = some owner)
    (isLast : last = (remapPasses hierarchy start units passes).value.2)
    (isMapped : last.method? owner signature = some ⟨signature, mapped⟩)
    (visited : PassVisit hierarchy units last (.point place point) now)
    (isTarget : point.target = some target)
    (parsed : target.parsed = some (.ofMember heir (.method signature)))
    (settled : Settles hierarchy (units.flatMap SourceUnit.walk) owner signature mapped last now) :
    ∃ named ownerName type,
      (last.isCompleted heir = false → named = mapped)
      ∧ (last.isCompleted heir = true → last.method? heir signature = some ⟨signature, named⟩
        ∧ ∃ moment, CompletesAt hierarchy (units.flatMap SourceUnit.walk) heir start moment last
          ∧ named = moment.nearestMethodName (hierarchy.ancestorsFrom heir owner) signature)
      ∧ start.mapClass heir = .ok ownerName ∧ start.mapMethodType signature.type = .ok type
      ∧ (∀ edit, edit ∈ (Visit.point place point).edits hierarchy now
        ↔ target.literal.value ≠ writePointMember ownerName (.method ⟨named, type⟩)
          ∧ edit = ⟨target.literal.span, target.literal.value,
            writePointMember ownerName (.method ⟨named, type⟩)⟩)
      ∧ ∀ edit ∈ (Visit.point place point).edits hierarchy now,
        ∃ output ∈ (remapPasses hierarchy start units (passes + 1)).value.1, edit ∈ output.edits := by
  have toLast : Evolves hierarchy (units.flatMap SourceUnit.walk) start last :=
    isLast ▸ evolves_remapPasses reachable.sound units passes
  have fromLast := visited.evolves (reachable.sound.evolves toLast)
  have toNow := toLast.trans fromLast
  obtain ⟨ownerName, mapsClass⟩ := reachable.sound.exists_mapClass heir
  obtain ⟨type, mapsType⟩ := reachable.sound.exists_mapMethodType signature.type
  have known := Hierarchy.find?_of_inheritedFrom? inherited
  have given : ∃ named, (now.complete hierarchy heir).value.method? heir signature = some ⟨signature, named⟩
      ∧ (last.isCompleted heir = false → named = mapped)
      ∧ (last.isCompleted heir = true → last.method? heir signature = some ⟨signature, named⟩
        ∧ ∃ moment, CompletesAt hierarchy (units.flatMap SourceUnit.walk) heir start moment last
          ∧ named = moment.nearestMethodName (hierarchy.ancestorsFrom heir owner) signature) := by
    rcases untouched.evolves undeclared own inherited toLast with
      still | ⟨completed, moment, completes, hasName⟩
    · refine ⟨mapped, still.settles undeclared own inherited isMapped settled, fun _ => rfl, fun done => ?_⟩
      rw [still.todo] at done
      cases done
    · obtain ⟨completedNow, frozen⟩ := Table.frozen_of_evolves undeclared completed fromLast
      refine ⟨_, ?_, fun todo => ?_, fun _ => ⟨hasName, moment, completes, rfl⟩⟩
      · rw [Table.complete_of_completed completedNow, frozen, hasName]
      · rw [completed] at todo
        cases todo
  obtain ⟨named, isNamed, ifOpen, ifCompleted⟩ := given
  refine ⟨named, ownerName, type, ifOpen, ifCompleted, mapsClass, mapsType, ?_, fun edit member => ?_⟩
  · exact mem_edits_point_of_method? reachable.sound toNow isTarget parsed known isNamed mapsClass mapsType
  · rw [remapPasses_succ, ← isLast]
    exact mem_edits_remapUnits.2 ⟨_, _, visited, member⟩

end Points

/-! ## A star that inherits its method -/

def starTarget : ClassName :=
  ⟨"p/u", by decide +kernel⟩

def starBase : ClassName :=
  ⟨"m/A", by decide +kernel⟩

def starHeir : ClassName :=
  ⟨"p/b", by decide +kernel⟩

def starGuest : ClassName :=
  ⟨"m/X", by decide +kernel⟩

/-- The method `l` without parameters and result. -/
def starMethod : MethodSignature :=
  ⟨⟨"l", by decide +kernel⟩, ⟨[], none⟩⟩

def starName : MethodName :=
  ⟨"gleam", by decide +kernel⟩

/-- `p/b` extends `m/A`, which declares the method. -/
def starHierarchy : Hierarchy :=
  ⟨[⟨starHeir, some starBase, [], [], []⟩,
    ⟨starBase, none, [], [], [⟨starMethod.name, starMethod.type, false, false⟩]⟩]⟩

def starOperations : List Operation :=
  [.createClass starTarget, .renameClass starTarget "q/Target",
    .mapMethod starTarget starMethod starName]

def starTable : Table :=
  (starOperations.foldl Operation.apply (.empty .standard)).update starTarget (ClassEntry.completeWith [] [])

/-- A mixin of `p/u` with the method as a shadow. -/
def starShade (mixin : ClassName) : SourceUnit :=
  ⟨"m/Shade.java",
    [.mk mixin [⟨AnnotationName.mixin, ⟨0, 15⟩, [("value", .classLiteral starTarget)]⟩] []
      [⟨starMethod.name, starMethod.type, false, [⟨AnnotationName.shadow, ⟨20, 27⟩, []⟩]⟩] []]⟩

def starLiteral : StringLiteral :=
  ⟨"Lp/b;l()V", ⟨60, 71⟩⟩

def starMark : Annotation :=
  ⟨AnnotationName.inject, ⟨40, 99⟩,
    [("at", .nested AnnotationName.point ⟨50, 98⟩ [("target", .string starLiteral)])]⟩

def starHook : MethodDecl :=
  ⟨⟨"gaze", by decide +kernel⟩, ⟨[], none⟩, false, [starMark]⟩

/-- A mixin that injects at calls of the inherited method. -/
def starMixin (target : ClassName) : ClassDecl :=
  .mk ⟨"m/N", by decide +kernel⟩ [⟨AnnotationName.mixin, ⟨0, 15⟩, [("value", .classLiteral target)]⟩] []
    [starHook] []

def starCall (target : ClassName) : SourceUnit :=
  ⟨"m/N.java", [starMixin target]⟩

def starPoint : PointData :=
  ⟨none, some ⟨starLiteral, some (.ofMember starHeir (.method starMethod))⟩⟩

def starVisit (target : ClassName) : Visit :=
  .point (.ofMethod (starMixin target) [target] starHook) starPoint

private theorem reachable_starTable : starTable.Reachable := by
  have completed :=
    ((Table.Reachable.empty .standard).run starOperations).apply (.complete .empty starTarget)
  rwa [Operation.apply, Table.complete_of_unknown rfl (by decide +kernel)] at completed

private theorem ancestors_starHeir : starHierarchy.ancestors starHeir = [starBase] := by
  cbv

private theorem parseLiteral_starLiteral : (parseLiteral PointReference.parse starLiteral).value
    = ⟨starLiteral, some (.ofMember starHeir (.method starMethod))⟩ := by
  have written : starLiteral.value = writePointMember starHeir (.method starMethod) := by decide +kernel
  have plain : (MemberReference.method starMethod).Plain := by
    unfold MemberReference.Plain
    decide +kernel
  have reads := PointReference.parse_writePointMember starHeir plain
  rw [← written] at reads
  rw [parseLiteral, reads]
  rfl

section Call

variable {now : Table} {target : ClassName}

/-- The target is known if there is an entry or the hierarchy tells about it; then it is completed. -/
theorem knownTargets_starMixin
    (known : (now.find? target).isSome = true ∨ (starHierarchy.find? target).isSome = true) :
    (knownTargets starHierarchy (starMixin target).name [target] now).value = [target]
      ∧ (knownTargets starHierarchy (starMixin target).name [target] now).table
        = (now.complete starHierarchy target).value := by
  have present : ((now.find? target).isNone && (starHierarchy.find? target).isNone) = false := by
    rcases known with isKnown | isKnown
    · rw [Option.isNone_eq_false_iff.2 isKnown, Bool.false_and]
    · rw [Option.isNone_eq_false_iff.2 isKnown, Bool.and_false]
  have resolved : resolveClass starHierarchy target now
      = ⟨true, (now.complete starHierarchy target).value, .empty,
        (now.complete starHierarchy target).log⟩ := by
    rw [run_resolveClass, present, if_neg Bool.false_ne_true]
  rw [knownTargets, Remap.run_bind, resolved]
  exact ⟨rfl, rfl⟩

private theorem table_starCall
    (known : (now.find? target).isSome = true ∨ (starHierarchy.find? target).isSome = true) :
    (remapUnit starHierarchy now (starCall target)).value.2
      = (remapMembers starHierarchy (starMixin target) [target]
        (now.complete starHierarchy target).value).table := by
  obtain ⟨targets, completed⟩ := knownTargets_starMixin known
  have isMixin : (MixinData.ofClass? (starMixin target)).run.value = .ok (some ⟨[target], []⟩) := rfl
  have left := table_remapOne isMixin rfl rfl targets (by simp)
  have walk : (starCall target).walk = [starMixin target] := rfl
  rw [← completed, remapUnit, walk, Remap.each, Remap.run_bind]
  exact left

/-- If the target is known, the pass comes to the injection point. -/
theorem visited_starCall
    (known : (now.find? target).isSome = true ∨ (starHierarchy.find? target).isSome = true) :
    Visited starHierarchy (starCall target) now (starVisit target)
      (now.complete starHierarchy target).value := by
  obtain ⟨targets, completed⟩ := knownTargets_starMixin known
  have mixinReached :
      MixinReached starHierarchy (starCall target) now (starMixin target) ⟨[target], []⟩ now :=
    ⟨⟨[], [], rfl, rfl⟩, rfl⟩
  have methodReached : ∀ atTargets,
      MethodReached starHierarchy (starMixin target) [target] atTargets starHook atTargets :=
    fun _ => ⟨[], [], rfl, rfl⟩
  have markReached : ∀ atMethod,
      MarkReached starHierarchy (.ofMethod (starMixin target) [target] starHook) starHook atMethod
        (.inject ⟨[], [starPoint], []⟩) starMark atMethod := by
    intro atMethod
    refine ⟨⟨[], [], rfl, rfl⟩, ?_⟩
    rw [starPoint, ← parseLiteral_starLiteral]
    rfl
  rw [← completed]
  exact .linkage mixinReached rfl rfl targets (by simp) (methodReached _) (markReached _)
    (.point rfl rfl ⟨[], [], rfl, rfl, rfl⟩)

end Call

private theorem untouched_starHeir : starTable.Untouched starHeir starMethod :=
  ⟨by decide +kernel, by decide +kernel⟩

private theorem inheritedFrom?_starHeir :
    starHierarchy.inheritedFrom? starHeir starMethod = some starBase := by
  rw [Hierarchy.inheritedFrom?, ancestors_starHeir]
  decide +kernel

/-- `m/N` is a mixin of a mixin that comes later. -/
def starGuests : List SourceUnit :=
  [starCall starGuest, starShade starBase, starShade starGuest]

def starGuestsOnce : Table :=
  (remapPasses starHierarchy starTable starGuests 1).value.2

private theorem passVisit_starGuests :
    PassVisit starHierarchy starGuests starGuestsOnce (starVisit starGuest)
      (starGuestsOnce.complete starHierarchy starGuest).value :=
  ⟨[], _, _, rfl, visited_starCall (.inl (by decide +kernel))⟩

/-- The first pass passes over `m/N`, because it knows nothing about `m/X` yet. The second pass works on
it, and by then `m/A` has the name that `p/b` is completed with. -/
theorem edits_of_inherited_point_guest :
    starTable.Reachable ∧ starTable.Untouched starHeir starMethod
      ∧ starHierarchy.inheritedFrom? starHeir starMethod = some starBase
      ∧ starGuestsOnce.isCompleted starHeir = false
      ∧ starGuestsOnce.method? starBase starMethod = some ⟨starMethod, starName⟩
      ∧ ∃ now, PassVisit starHierarchy starGuests starGuestsOnce (starVisit starGuest) now
        ∧ ⟨starLiteral.span, "Lp/b;l()V", "Lp/b;gleam()V"⟩ ∈ (starVisit starGuest).edits starHierarchy now
        ∧ ∃ output ∈ (remapPasses starHierarchy starTable starGuests 2).value.1,
          ⟨starLiteral.span, "Lp/b;l()V", "Lp/b;gleam()V"⟩ ∈ output.edits := by
  have isOpen : starGuestsOnce.isCompleted starHeir = false := by decide +kernel
  have isMapped : starGuestsOnce.method? starBase starMethod = some ⟨starMethod, starName⟩ := by
    decide +kernel
  have settled : Settles starHierarchy (starGuests.flatMap SourceUnit.walk) starBase starMethod starName
      starGuestsOnce (starGuestsOnce.complete starHierarchy starGuest).value := by
    refine .single ⟨.complete starGuestsOnce starGuest, ?_⟩
    rw [Table.complete_of_unknown rfl (by decide +kernel)]
    decide +kernel
  obtain ⟨_, ownerName, type, ifOpen, _, mapsClass, mapsType, edits, reported⟩ :=
    edits_of_inherited_point reachable_starTable (by decide +kernel) untouched_starHeir (by decide +kernel)
      inheritedFrom?_starHeir rfl isMapped passVisit_starGuests rfl rfl settled
  have keepsClass : starTable.mapClass starHeir = .ok starHeir := by decide +kernel
  have keepsType : starTable.mapMethodType starMethod.type = .ok starMethod.type := by decide +kernel
  cases ifOpen isOpen
  cases keepsClass.symm.trans mapsClass
  cases keepsType.symm.trans mapsType
  have member := (edits _).2 ⟨by decide +kernel, rfl⟩
  have text : writePointMember starHeir (.method ⟨starName, starMethod.type⟩) = "Lp/b;gleam()V" := by
    decide +kernel
  rw [text] at member
  exact ⟨reachable_starTable, untouched_starHeir, inheritedFrom?_starHeir, isOpen, isMapped, _,
    passVisit_starGuests, member, reported _ member⟩

/-- `m/N` is a mixin of `p/b` itself, and comes before `m/A`. -/
def starHeirs : List SourceUnit :=
  [starCall starHeir, starShade starBase]

/-- The first pass completes `p/b` before `m/A` has a name. -/
theorem complete_starHeir : (starTable.complete starHierarchy starHeir).value
    = starTable.update starHeir (ClassEntry.completeWith [] [(starMethod, starMethod.name)]) := by
  have lineage : starHierarchy.lineage starHeir = [starHeir, starBase] := by
    rw [Hierarchy.lineage, ancestors_starHeir]
  have fields : starTable.inheritedFields starHierarchy starHeir = [] := by
    rw [Table.inheritedFields, lineage]
    decide +kernel
  have methods : starTable.inheritedMethods starHierarchy starHeir = [(starMethod, starMethod.name)] := by
    rw [Table.inheritedMethods, lineage]
    decide +kernel
  rw [Table.complete_value, untouched_starHeir.todo, fields, methods]
  rfl

def starHeirsOnce : Table :=
  (remapUnit starHierarchy
    (remapMembers starHierarchy (starMixin starHeir) [starHeir]
      (starTable.update starHeir (ClassEntry.completeWith [] [(starMethod, starMethod.name)]))).table
    (starShade starBase)).value.2

private theorem remapPasses_starHeirs :
    (remapPasses starHierarchy starTable starHeirs 1).value.2 = starHeirsOnce := by
  have known : (starHierarchy.find? starHeir).isSome = true := by decide +kernel
  have first : (remapUnit starHierarchy starTable (starCall starHeir)).value.2 = _ :=
    table_starCall (.inr known)
  rw [complete_starHeir] at first
  rw [starHeirsOnce, ← first]
  rfl

/-- The second pass comes to the injection point, `m/A` has its name by then and keeps it, and the point
stays as it is. -/
theorem inherited_point_of_completed_stays :
    starTable.Reachable ∧ (∀ decl ∈ starHeirs.flatMap SourceUnit.walk, decl.name ≠ starHeir)
      ∧ starTable.Untouched starHeir starMethod
      ∧ starMethod ∉ Table.declaredMethods starHierarchy true starHeir
      ∧ starHierarchy.inheritedFrom? starHeir starMethod = some starBase
      ∧ (remapPasses starHierarchy starTable starHeirs 1).value.2.method? starBase starMethod
        = some ⟨starMethod, starName⟩
      ∧ (remapPasses starHierarchy starTable starHeirs 2).value.2.method? starBase starMethod
        = some ⟨starMethod, starName⟩
      ∧ PassVisit starHierarchy starHeirs (remapPasses starHierarchy starTable starHeirs 1).value.2
        (starVisit starHeir) (remapPasses starHierarchy starTable starHeirs 1).value.2
      ∧ (remapPasses starHierarchy starTable starHeirs 2).value.1.map Output.edits = [[], []] := by
  have visited : PassVisit starHierarchy starHeirs starHeirsOnce (starVisit starHeir) starHeirsOnce := by
    have known : (starHierarchy.find? starHeir).isSome = true := by decide +kernel
    have comes : Visited starHierarchy (starCall starHeir) starHeirsOnce (starVisit starHeir) _ :=
      visited_starCall (.inr known)
    rw [Table.complete_of_completed (by decide +kernel)] at comes
    exact ⟨[], _, _, rfl, comes⟩
  rw [remapPasses_succ starHierarchy starHeirs starTable 1, remapPasses_starHeirs]
  exact ⟨reachable_starTable, by decide +kernel, untouched_starHeir, by decide +kernel,
    inheritedFrom?_starHeir, by decide +kernel, by decide +kernel, visited, by decide +kernel⟩

end MixinLink
