import MixinLink.Proofs.Agreement
import MixinLink.Proofs.BuildingBlocks
import MixinLink.Proofs.Resolution

/-!
# Remapping does not depend on the order of entries

Every step of remapping agrees with itself: from two tables of the same contents it goes on in the same
way, whatever the order of their entries. So remapping source files gives the same edits, the same
diagnostics up to the order of candidates, and again tables of the same contents.

Main exports: `agree_resolveMember`, `Linking.agree`, `Remapping.agree`, `Classing.agree`,
`remapUnits_same_of_reachable`.
-/

namespace MixinLink

/-! ## Looking up classes and members -/

section Resolving

/-- The same classes are known, and they are completed alike. -/
theorem agree_resolveClass (hierarchy : Hierarchy) (name : ClassName) :
    Remap.Agree Eq (resolveClass hierarchy name) (resolveClass hierarchy name) := by
  apply Remap.Agree.table.bind
  intro table twin twins
  have known : (table.find? name).isNone = (twin.find? name).isNone := by
    rw [← Option.not_isSome, ← Option.not_isSome, twins.same.isSome_find?]
  rw [known]
  split
  · exact .pure rfl
  · have completed := twins.complete hierarchy name
    apply (Remap.Agree.note completed).bind
    intro table twin twins
    exact (Remap.Agree.change fun _ _ _ => twins).bindSame fun _ => .pure rfl

/-- The methods of a name are looked at as a whole. -/
theorem resolveBare_same {entry twin : ClassEntry} {keys : List String} (same : entry.Same twin)
    (sound : ClassEntry.SoundAt keys entry) (twinSound : ClassEntry.SoundAt keys twin) (name : MethodName) :
    (resolveBare entry name).Same (resolveBare twin name) := by
  have named := same.methodsNamed sound twinSound name
  unfold resolveBare
  generalize entry.methodsNamed name = methods at named
  generalize twin.methodsNamed name = twinMethods at named
  rcases methods with _ | ⟨first, others⟩
  · cases List.nil_perm.1 named
    exact .missing
  rcases twinMethods with _ | ⟨twinFirst, twinOthers⟩
  · exact absurd named.eq_nil (List.cons_ne_nil _ _)
  · have agreed : ∀ {head : MethodMapping} {tail : List MethodMapping},
        tail.all (·.mapped = head.mapped) = true
          ↔ ∀ method ∈ head :: tail, method.mapped = head.mapped := by
      intro head tail
      simp
    simp only
    by_cases firstAgreed : others.all (·.mapped = first.mapped) = true
    · have whole := agreed.1 firstAgreed
      have sameFirst : twinFirst.mapped = first.mapped :=
        whole twinFirst (named.mem_iff.2 List.mem_cons_self)
      have twinAgreed : twinOthers.all (·.mapped = twinFirst.mapped) = true := by
        apply agreed.2
        intro method member
        rw [sameFirst]
        exact whole method (named.mem_iff.2 member)
      rw [if_pos firstAgreed, if_pos twinAgreed, sameFirst]
      exact .found _
    · have twinDiffers : ¬twinOthers.all (·.mapped = twinFirst.mapped) = true := by
        intro twinAgreed
        have whole := agreed.1 twinAgreed
        have sameFirst : first.mapped = twinFirst.mapped :=
          whole first (named.mem_iff.1 List.mem_cons_self)
        refine firstAgreed (agreed.2 fun method member => ?_)
        rw [sameFirst]
        exact whole method (named.mem_iff.1 member)
      rw [if_neg firstAgreed, if_neg twinDiffers]
      exact .ambiguous (named.map _)

/-- Looking up a field with its type answers the same for that type. -/
theorem agree_resolveTypedField (owner : ClassName) (name : FieldName) (type : FieldType) :
    Remap.Agree Eq (resolveTypedField owner name type) (resolveTypedField owner name type) := by
  intro table twin twins
  obtain ⟨value, after⟩ := run_resolveTypedField twins.firstSound owner name type
  obtain ⟨twinValue, twinAfter⟩ := run_resolveTypedField twins.secondSound owner name type
  refine ⟨?_, ?_, .empty⟩
  · rw [value, twinValue]
    exact twins.same.bind_find? owner fun _ _ same => same.typedField? name type
  · rw [after, twinAfter]
    exact (twins.resolveField owner name type).2

/-- Looking up a field with its type finds the same. -/
theorem agree_lookUpField (name : FieldName) (type : FieldType) (target : ClassName) :
    Attempt.Agree Resolved.Same (lookUpField ⟨name, some type⟩ target)
      (lookUpField ⟨name, some type⟩ target) := by
  intro table twin twins
  obtain ⟨sameFound, after⟩ := twins.resolveField target name type
  have value (now : Table) : ((lookUpField ⟨name, some type⟩ target).run now).value
      = .ok (.ofOption ((now.resolveField target ⟨name, some type⟩).1.map FieldMapping.mapped)) := rfl
  refine ⟨?_, after, .empty⟩
  rw [value, value, sameFound]
  exact .ok (.refl _)

/-- Looking up a method finds the same. -/
theorem agree_lookUpMethod (signature : MethodSignature) (target : ClassName) :
    Attempt.Agree Resolved.Same (lookUpMethod signature target) (lookUpMethod signature target) := by
  refine (Attempt.Agree.lift .table).bind fun table twin twins => .pure ?_
  rw [twins.same.method?]
  exact .refl _

/-- A member has the same image, or is ambiguous for the same candidates. -/
theorem agree_resolveMember (owner : ClassName) (member : MemberReference) :
    Attempt.Agree Resolved.Same (resolveMember owner member) (resolveMember owner member) := by
  cases member with
  | bare name =>
      apply (Attempt.Agree.lift .table).bind
      intro table twin twins
      rcases rel_cases (twins.same.find? owner) with ⟨absent, otherAbsent⟩
        | ⟨entry, other, found, otherFound, same⟩
      · rw [absent, otherAbsent]
        exact .pure .missing
      · rw [found, otherFound]
        exact .pure (resolveBare_same same (twins.firstSound.soundAt found)
          (twins.secondSound.soundAt otherFound) name)
  | method signature =>
      apply (Attempt.Agree.lift .table).bind
      intro table twin twins
      rw [twins.same.method?]
      split
      · exact .pure .missing
      · have sameType := Table.mapMethodType_congr twins.same.mapClass signature.type
        exact (Attempt.Agree.check sameType).bindSame fun _ => .pure (.found _)
  | field name type =>
      apply (Attempt.Agree.lift (agree_resolveTypedField owner name type)).bindSame
      intro found
      split
      · exact .pure .missing
      · apply (Attempt.Agree.lift .table).bind
        intro table twin twins
        have sameType := Table.mapFieldType_congr twins.same.mapClass type
        exact (Attempt.Agree.check sameType).bindSame fun _ => .pure (.found _)

end Resolving

/-! ## Literals and names -/

section Literals

variable {place : Place}

/-- The same name is given. -/
theorem agree_nameField (className : ClassName) (field : FieldDecl) (mapped : String) :
    Attempt.Agree Eq (nameField className field mapped) (nameField className field mapped) := by
  apply (Attempt.Agree.check rfl).bindSame
  intro mapped
  refine (Attempt.Agree.lift (.log _ _)).bindSame fun _ => .lift (.change fun table twin twins => ?_)
  exact twins.update className (fun _ _ same => same.mapField _ _) fun _ sound => sound.mapField _ _

/-- The same name is given. -/
theorem agree_nameMethod (className : ClassName) (method : MethodDecl) (mapped : String) :
    Attempt.Agree Eq (nameMethod className method mapped) (nameMethod className method mapped) := by
  apply (Attempt.Agree.check rfl).bindSame
  intro mapped
  refine (Attempt.Agree.lift (.log _ _)).bindSame fun _ => .lift (.change fun table twin twins => ?_)
  exact twins.update className (fun _ _ same => same.mapMethod _ _) fun _ sound => sound.mapMethod _ _

/-- A literal that names a class. -/
theorem agree_remapClassLiteral (literal : StringLiteral) (reference : ClassReference) :
    Attempt.Agree Eq (remapClassLiteral literal reference) (remapClassLiteral literal reference) := by
  apply (Attempt.Agree.lift .table).bind
  intro table twin twins
  apply (Attempt.Agree.check (twins.same.mapClass? reference.name)).bindSame
  intro mapped
  cases mapped with
  | none => exact .pure rfl
  | some mapped => exact .lift (.edit _ _)

/-- The same candidates are reported. -/
theorem agree_reportAmbiguous (literal : StringLiteral) {candidates others : List String}
    (reordered : candidates.Perm others) :
    Attempt.Agree Eq (liftM (reportAmbiguous place literal candidates) : Attempt Unit)
      (liftM (reportAmbiguous place literal others)) :=
  .lift (.report (.ambiguousOverload _ _ _ _ reordered))

/-- A target method of an injection. -/
theorem agree_remapTargetMethod (target : ParsedLiteral MemberReference) :
    Attempt.Agree Eq (remapTargetMethod place target) (remapTargetMethod place target) := by
  unfold remapTargetMethod
  split
  · exact .pure rfl
  · rename_i member _
    have across : Attempt.Agree Resolved.Same (acrossTargets place (resolveMember · member))
        (acrossTargets place (resolveMember · member)) :=
      .acrossTargets fun owner => agree_resolveMember owner member
    exact across.bindResolved (fun _ => .lift (.edit _ _)) (.lift (.log _ _))
      fun _ _ reordered => agree_reportAmbiguous target.literal reordered

/-- An injection point at a member. -/
theorem agree_remapPointMember (point : PointData) (literal : StringLiteral) (owner : ClassName)
    (member : MemberReference) :
    Attempt.Agree Eq (remapPointMember place point literal owner member)
      (remapPointMember place point literal owner member) := by
  refine (agree_resolveMember owner member).bindResolved (fun image => ?_) (.lift (.log _ _))
    fun _ _ reordered => agree_reportAmbiguous _ reordered
  apply (Attempt.Agree.lift .table).bind
  intro table twin twins
  exact (Attempt.Agree.check (twins.same.mapClass owner)).bindSame fun _ => .lift (.edit _ _)

/-- A string that names a target means the class of that name in both tables. -/
theorem agree_remapPrivateTarget (target : ParsedLiteral ClassReference) :
    Attempt.Agree Eq (remapPrivateTarget target) (remapPrivateTarget target) := by
  unfold remapPrivateTarget
  split
  · exact .pure rfl
  · rename_i reference _
    apply (Attempt.Agree.lift .table).bind
    intro table twin twins
    rw [twins.firstSound.literalNode?_eq, twins.secondSound.literalNode?_eq]
    cases (ClassName.parseDotted target.literal.value).toOption with
    | none => exact .pure rfl
    | some name =>
        simp only [Option.bind_some]
        rcases rel_cases (twins.same.find? name) with
          ⟨absent, otherAbsent⟩ | ⟨entry, other, found, otherFound, _⟩
        · rw [Option.map_eq_none_iff.1 absent, Option.map_eq_none_iff.1 otherAbsent]
          exact .pure rfl
        · have isName := twins.firstSound.name_of_find? found
          have otherName := twins.secondSound.name_of_find? otherFound
          obtain ⟨node, atName, rfl⟩ := Option.map_eq_some_iff.1 found
          obtain ⟨otherNode, otherAtName, rfl⟩ := Option.map_eq_some_iff.1 otherFound
          rw [atName, otherAtName]
          simp only [isName, otherName]
          exact (Attempt.Agree.check (twins.same.mapClass name)).bindSame fun _ => .lift (.edit _ _)

/-- What is found is used, if that is done alike. -/
theorem agree_whenFound {α : Type} {find : Attempt (Resolved α)} {missing : String}
    {use : α → Attempt Unit} (search : Attempt.Agree Resolved.Same find find)
    (uses : ∀ value, Attempt.Agree Eq (use value) (use value)) :
    Attempt.Agree Eq (whenFound find missing use) (whenFound find missing use) :=
  search.bindResolved uses (.lift (.log _ _)) fun _ _ _ => .lift (.log _ _)

end Literals

/-! ## The blocks -/

section Blocks

variable {hierarchy : Hierarchy} {scope : Scope} {decls : List ClassDecl} {sites : List LiteralSite}

/-- Mapped names are used alike. -/
theorem Use.agree {name mapped : String} {attempt : Attempt Unit}
    (use : Use scope name mapped sites attempt) : Attempt.Agree Eq attempt attempt := by
  cases use with
  | nameField => exact agree_nameField _ _ _
  | nameMethod => exact agree_nameMethod _ _ _
  | nameAccessor => exact agree_nameMethod _ _ _
  | edit => exact .lift (.edit _ _)

/-- Injections agree with themselves. -/
theorem Injecting.agree {attempt : Attempt Unit} (injects : Injecting hierarchy sites attempt) :
    Attempt.Agree Eq attempt attempt := by
  induction injects with
  | nothing => exact .pure rfl
  | log level text => exact .lift (.log level text)
  | classLiteral readable written => exact agree_remapClassLiteral _ _
  | targetMethod readBy => exact agree_remapTargetMethod _
  | pointMember reads => exact agree_remapPointMember _ _ _ _
  | resolving whenKnown whenUnknown ihKnown ihUnknown =>
      refine (Attempt.Agree.lift (agree_resolveClass hierarchy _)).bindSame fun known => ?_
      cases known with
      | true => exact ihKnown
      | false => exact ihUnknown
  | seq start next ihStart ihNext => exact ihStart.bindSame fun _ => ihNext
  | weaken built fewer ih => exact ih

/-- Linkages agree with themselves. -/
theorem Linking.agree {attempt : Attempt Unit} (links : Linking hierarchy scope sites attempt) :
    Attempt.Agree Eq attempt attempt := by
  induction links with
  | injection injects => exact injects.agree
  | refused failure => exact .check rfl
  | logged noted next ih => exact (Attempt.Agree.lift (.note rfl)).bindSame fun _ => ih
  | resolving may whenKnown whenUnknown ihKnown ihUnknown =>
      refine (Attempt.Agree.lift (agree_resolveClass hierarchy _)).bindSame fun known => ?_
      cases known with
      | true => exact ihKnown
      | false => exact ihUnknown
  | whenField may uses =>
      exact agree_whenFound (.acrossTargets fun target => agree_lookUpField _ _ target)
        fun mapped => (uses mapped).agree
  | whenMethod may uses =>
      exact agree_whenFound (.acrossTargets fun target => agree_lookUpMethod _ target)
        fun mapped => (uses mapped).agree
  | whenInherited uses => exact agree_whenFound (agree_lookUpMethod _ _) fun mapped => (uses mapped).agree
  | weaken built fewer ih => exact ih

/-- What is done for members agrees with itself. -/
theorem Remapping.agree {step : Remap Unit} (remaps : Remapping hierarchy decls sites step) :
    Remap.Agree Eq step step := by
  induction remaps with
  | nothing => exact .pure rfl
  | noted result => exact .note rfl
  | linkage links => exact links.agree.orElse fun _ => .report (.refl _)
  | unread declared fails => exact .report (.refl _)
  | resolving whenKnown whenUnknown ihKnown ihUnknown =>
      refine (agree_resolveClass hierarchy _).bindSame fun known => ?_
      cases known with
      | true => exact ihKnown
      | false => exact ihUnknown
  | seq start next ihStart ihNext => exact ihStart.bindSame fun _ => ihNext
  | weaken built fewer ih => exact ih

/-- What is done for a class agrees with itself. -/
theorem Classing.agree {decl : ClassDecl} {attempt : Attempt Unit}
    (remaps : Classing hierarchy decls decl sites attempt) : Attempt.Agree Eq attempt attempt := by
  induction remaps with
  | refused fails => exact .check rfl
  | privateTarget readBy => exact agree_remapPrivateTarget _
  | lift remaps => exact .lift remaps.agree
  | seq start next ihStart ihNext => exact ihStart.bindSame fun _ => ihNext
  | weaken built fewer ih => exact ih

end Blocks

/-! ## Source files -/

/-- Remapping a source file agrees with itself. -/
theorem agree_remapUnit (hierarchy : Hierarchy) {table twin : Table} (twins : table.Twins twin)
    (unit : SourceUnit) :
    (remapUnit hierarchy table unit).value.1.Same (remapUnit hierarchy twin unit).value.1
      ∧ (remapUnit hierarchy table unit).value.2.Twins (remapUnit hierarchy twin unit).value.2 := by
  have agree (decl : ClassDecl) : Remap.Agree Eq (remapOne hierarchy decl) (remapOne hierarchy decl) :=
    (classing_remapMixin (List.mem_singleton_self decl)).agree.orElse fun _ => .report (.refl _)
  have ended := Remap.Agree.each agree unit.walk table twin twins
  exact ⟨ended.output, ended.tables⟩

/-- So does remapping source files one after the other. -/
theorem agree_remapUnits (hierarchy : Hierarchy) {table twin : Table} (twins : table.Twins twin)
    (units : List SourceUnit) :
    List.Forall₂ Output.Same (remapUnits hierarchy table units).value.1
        (remapUnits hierarchy twin units).value.1
      ∧ (remapUnits hierarchy table units).value.2.Twins (remapUnits hierarchy twin units).value.2 := by
  induction units generalizing table twin with
  | nil => exact ⟨.nil, twins⟩
  | cons unit rest ih =>
      obtain ⟨output, after⟩ := agree_remapUnit hierarchy twins unit
      obtain ⟨outputs, ended⟩ := ih after
      exact ⟨.cons output outputs, ended⟩

/-- Remapping source files with tables of the same contents puts out the same for every file, up to the
order of candidates, and leaves tables of the same contents. -/
theorem remapUnits_same_of_reachable {table twin : Table} (reachable : table.Reachable)
    (twinReachable : twin.Reachable) (same : table.Same twin) (hierarchy : Hierarchy)
    (units : List SourceUnit) :
    List.Forall₂ Output.Same (remapUnits hierarchy table units).value.1
        (remapUnits hierarchy twin units).value.1
      ∧ (remapUnits hierarchy table units).value.2.Same (remapUnits hierarchy twin units).value.2 := by
  have twins : table.Twins twin := ⟨same, reachable.sound, twinReachable.sound⟩
  obtain ⟨outputs, ended⟩ := agree_remapUnits hierarchy twins units
  exact ⟨outputs, ended.same⟩

/-! ## Two overloads in different orders -/

def overloadOwner : ClassName :=
  ⟨"p/o", by decide +kernel⟩

/-- The method `t` with some parameters and no result. -/
def overloadOf (parameters : List FieldType) : MethodSignature :=
  ⟨⟨"t", by decide +kernel⟩, parameters, none⟩

def mapPlain : Operation :=
  .mapMethod overloadOwner (overloadOf []) ⟨"turn", by decide +kernel⟩

def mapOther : Operation :=
  .mapMethod overloadOwner (overloadOf [.ofClass overloadOwner]) ⟨"twist", by decide +kernel⟩

/-- The overloads mapped one after the other. -/
def overloadTable (operations : List Operation) : Table :=
  (operations.foldl Operation.apply (.empty .standard)).update overloadOwner (ClassEntry.completeWith [] [])

def overloadUnit : SourceUnit :=
  ⟨"m/Turn.java",
    [.mk ⟨"m/Turn", by decide +kernel⟩
      [⟨AnnotationName.mixin, ⟨0, 15⟩, [("value", .classLiteral overloadOwner)]⟩] []
      [⟨⟨"onTurn", by decide +kernel⟩, ⟨[], none⟩, false,
        [⟨AnnotationName.inject, ⟨20, 40⟩, [("method", .string ⟨"t", ⟨30, 33⟩⟩)]⟩]⟩] []]⟩

/-- The diagnostic about the bare name `t`. -/
def overloadOutput (candidates : List String) : Output :=
  ⟨[], [.ambiguousOverload ⟨"m/Turn", by decide +kernel⟩ (some "onTurn()V") "t" ⟨30, 33⟩ candidates]⟩

/-- The tables come from their operations. -/
theorem reachable_overloadTable {operations : List Operation}
    (todo : (operations.foldl Operation.apply (.empty .standard)).isCompleted overloadOwner = false) :
    (overloadTable operations).Reachable := by
  have completed := ((Table.Reachable.empty .standard).run operations).apply
    (.complete .empty overloadOwner)
  rwa [Operation.apply, Table.complete_of_unknown rfl todo] at completed

/-- The order in which the overloads are mapped does not matter to look-ups. -/
theorem same_overloadTable :
    (overloadTable [mapPlain, mapOther]).Same (overloadTable [mapOther, mapPlain]) := by
  simp only [overloadTable, mapPlain, mapOther, List.foldl_cons, List.foldl_nil, Operation.apply,
    Table.update_update]
  apply Table.Same.update (.refl _) overloadOwner
  intro entry twin same
  have differ : overloadOf [] ≠ overloadOf [.ofClass overloadOwner] := by decide +kernel
  exact (same.mapMethod_comm differ _ _).completeWith [] []

/-- The candidates are listed in the order of the table. -/
theorem remapUnits_same_overloads :
    (overloadTable [mapPlain, mapOther]).Reachable ∧ (overloadTable [mapOther, mapPlain]).Reachable
      ∧ overloadTable [mapPlain, mapOther] ≠ overloadTable [mapOther, mapPlain]
      ∧ (overloadTable [mapPlain, mapOther]).Same (overloadTable [mapOther, mapPlain])
      ∧ (remapUnits .empty (overloadTable [mapPlain, mapOther]) [overloadUnit]).value.1
        = [overloadOutput ["t()V -> turn", "t(Lp/o;)V -> twist"]]
      ∧ (remapUnits .empty (overloadTable [mapOther, mapPlain]) [overloadUnit]).value.1
        = [overloadOutput ["t(Lp/o;)V -> twist", "t()V -> turn"]]
      ∧ (remapUnits .empty (overloadTable [mapPlain, mapOther]) [overloadUnit]).value.2.Same
        (remapUnits .empty (overloadTable [mapOther, mapPlain]) [overloadUnit]).value.2 := by
  have reachable : (overloadTable [mapPlain, mapOther]).Reachable :=
    reachable_overloadTable (by decide +kernel)
  have twinReachable : (overloadTable [mapOther, mapPlain]).Reachable :=
    reachable_overloadTable (by decide +kernel)
  have ended := remapUnits_same_of_reachable reachable twinReachable same_overloadTable .empty [overloadUnit]
  exact ⟨reachable, twinReachable, by decide +kernel, same_overloadTable, by decide +kernel,
    by decide +kernel, ended.2⟩

end MixinLink
