import MixinLink.Proofs.Evolution
import MixinLink.Proofs.LiteralOrder

/-!
# Where edits come from

Remapping a source file comes to its literals one after the other, each at the table that the work on
everything before it has left. The edits that it puts out are exactly those of these visits: the strings
that name targets of a mixin, the literals of accessors, and the literals of injections.

Main exports: `Visit`, `Visited`, `mem_edits_remapUnit`, `Visited.evolves`.
-/

namespace MixinLink

variable {α : Type}

/-! ## Coming to an item of a list -/

/-- Steps for the items of a list come to an item at a table. -/
def Remap.ComesTo (step : α → Remap Unit) (items : List α) (start : Table) (item : α) (now : Table) :
    Prop :=
  ∃ before after, items = before ++ item :: after ∧ now = (Remap.each step before start).table

/-- Attempts for the items of a list come to an item at a table; none has failed before. -/
def Attempt.ComesTo (attempt : α → Attempt Unit) (items : List α) (start : Table) (item : α)
    (now : Table) : Prop :=
  ∃ before after, items = before ++ item :: after
    ∧ ((Attempt.each attempt before).run start).value = .ok ()
    ∧ now = ((Attempt.each attempt before).run start).table

namespace Remap.ComesTo

variable {step : α → Remap Unit} {items : List α} {start now : Table} {item first : α}

/-- A step comes to the first item at the start, and to the others after it. -/
theorem cons_iff :
    ComesTo step (first :: items) start item now
      ↔ (item = first ∧ now = start) ∨ ComesTo step items (step first start).table item now := by
  constructor
  · rintro ⟨before, after, whole, isNow⟩
    cases before with
    | nil =>
        cases whole
        exact .inl ⟨rfl, isNow⟩
    | cons _ before =>
        cases whole
        exact .inr ⟨before, after, rfl, isNow⟩
  · rintro (⟨rfl, rfl⟩ | ⟨before, after, rfl, isNow⟩)
    · exact ⟨[], items, rfl, rfl⟩
    · exact ⟨first :: before, after, rfl, isNow⟩

/-- What a step comes to is one of the items. -/
theorem mem (comes : ComesTo step items start item now) : item ∈ items := by
  obtain ⟨before, after, rfl, _⟩ := comes
  simp

/-- The edits of steps for all items are the edits of the steps, each at its table. -/
theorem mem_edits_each {edit : LiteralEdit} :
    edit ∈ (Remap.each step items start).output.edits
      ↔ ∃ item now, ComesTo step items start item now ∧ edit ∈ (step item now).output.edits := by
  induction items generalizing start with
  | nil =>
      constructor
      · intro member
        cases member
      · rintro ⟨_, _, comes, _⟩
        exact absurd comes.mem List.not_mem_nil
  | cons first rest ih =>
      rw [Remap.each, Remap.mem_edits_bind, ih]
      constructor
      · rintro (here | ⟨item, now, comes, member⟩)
        · exact ⟨first, start, cons_iff.2 (.inl ⟨rfl, rfl⟩), here⟩
        · exact ⟨item, now, cons_iff.2 (.inr comes), member⟩
      · rintro ⟨item, now, comes, member⟩
        rcases cons_iff.1 comes with ⟨rfl, rfl⟩ | later
        · exact .inl member
        · exact .inr ⟨item, now, later, member⟩

/-- A contract that all steps meet is kept on the way. -/
theorem kept {contract : Contract} (comes : ComesTo step items start item now) (kept : contract.kept start)
    (meets : ∀ item ∈ items, Remap.Meets contract (step item) fun _ => True) : contract.kept now := by
  obtain ⟨before, after, rfl, rfl⟩ := comes
  have earlier : Remap.Meets contract (Remap.each step before) fun _ => True :=
    .each fun item member => meets item (List.mem_append_left _ member)
  exact (earlier start kept).kept

end Remap.ComesTo

namespace Attempt.ComesTo

variable {attempt : α → Attempt Unit} {items : List α} {start now : Table} {item first : α}

/-- An attempt comes to the first item at the start, and to the others if it succeeds. -/
theorem cons_iff :
    ComesTo attempt (first :: items) start item now
      ↔ (item = first ∧ now = start)
        ∨ ((attempt first).run start).value = .ok ()
          ∧ ComesTo attempt items ((attempt first).run start).table item now := by
  constructor
  · rintro ⟨before, after, whole, success, isNow⟩
    cases before with
    | nil =>
        cases whole
        exact .inl ⟨rfl, isNow⟩
    | cons _ before =>
        cases whole
        obtain ⟨_, firstOk, restOk⟩ := Attempt.value_bind_eq_ok.1 success
        rw [Attempt.each, Attempt.run_bind_of_ok firstOk] at isNow
        exact .inr ⟨firstOk, before, after, rfl, restOk, isNow⟩
  · rintro (⟨rfl, rfl⟩ | ⟨firstOk, before, after, rfl, restOk, isNow⟩)
    · exact ⟨[], items, rfl, rfl, rfl⟩
    · refine ⟨first :: before, after, rfl, ?_, ?_⟩
      · exact Attempt.value_bind_eq_ok.2 ⟨(), firstOk, restOk⟩
      · rw [Attempt.each, Attempt.run_bind_of_ok firstOk]
        exact isNow

/-- What an attempt comes to is one of the items. -/
theorem mem (comes : ComesTo attempt items start item now) : item ∈ items := by
  obtain ⟨before, after, rfl, _⟩ := comes
  simp

/-- The edits of attempts for all items are the edits of the attempts that are made, each at its
table. -/
theorem mem_edits_each {edit : LiteralEdit} :
    edit ∈ ((Attempt.each attempt items).run start).output.edits
      ↔ ∃ item now, ComesTo attempt items start item now
        ∧ edit ∈ ((attempt item).run now).output.edits := by
  induction items generalizing start with
  | nil =>
      constructor
      · intro member
        cases member
      · rintro ⟨_, _, comes, _⟩
        exact absurd comes.mem List.not_mem_nil
  | cons first rest ih =>
      rw [Attempt.each, Attempt.mem_edits_bind]
      constructor
      · rintro (here | ⟨_, firstOk, later⟩)
        · exact ⟨first, start, cons_iff.2 (.inl ⟨rfl, rfl⟩), here⟩
        · obtain ⟨item, now, comes, member⟩ := ih.1 later
          exact ⟨item, now, cons_iff.2 (.inr ⟨firstOk, comes⟩), member⟩
      · rintro ⟨item, now, comes, member⟩
        rcases cons_iff.1 comes with ⟨rfl, rfl⟩ | ⟨firstOk, later⟩
        · exact .inl member
        · exact .inr ⟨(), firstOk, ih.2 ⟨item, now, later, member⟩⟩

/-- A contract that all attempts meet is kept on the way. -/
theorem kept {contract : Contract} {failures : Failure → Prop} (comes : ComesTo attempt items start item now)
    (kept : contract.kept start) (meets : ∀ item ∈ items, (attempt item).Meets contract failures) :
    contract.kept now := by
  obtain ⟨before, after, rfl, _, rfl⟩ := comes
  have earlier : (Attempt.each attempt before).Meets contract failures :=
    .each fun item member => meets item (List.mem_append_left _ member)
  exact (earlier start kept).kept

end Attempt.ComesTo

/-! ## Parts without edits -/

section Silent

variable {hierarchy : Hierarchy}

/-- Reading the interfaces of a class makes no edits and leaves the table alone. -/
theorem silent_softInterfaces (decl : ClassDecl) (table : Table) :
    (softInterfaces decl table).output.edits = [] ∧ (softInterfaces decl table).table = table := by
  unfold softInterfaces
  cases InterfaceData.ofClass? decl with
  | ok interfaces => exact ⟨rfl, rfl⟩
  | error failure => exact ⟨rfl, rfl⟩

/-- Completing the targets of a mixin makes no edits. -/
theorem silent_knownTargets (className : ClassName) (targets : List ClassName) (table : Table) :
    (knownTargets hierarchy className targets table).output.edits = [] := by
  have knowing : Remapping hierarchy [] []
      (knownTargets hierarchy className targets >>= fun _ => pure ()) :=
    .knowing targets fun _ => .nothing
  simpa [Remap.run_bind] using (knowing.editsAmong table).eq_nil

end Silent

/-! ## Visits -/

/-- Something whose literals may be edited. -/
inductive Visit where
  /-- A string that names a target of a mixin. -/
  | mixinTarget (target : ParsedLiteral ClassReference)
  /-- A linkage of a method that is no injection. -/
  | member (place : Place) (method : MethodDecl) (linkage : Linkage)
  /-- A target method of an injection. -/
  | targetMethod (place : Place) (target : ParsedLiteral MemberReference)
  /-- An injection point. -/
  | point (place : Place) (point : PointData)

/-- What remapping does at a visit. -/
def Visit.attempt (hierarchy : Hierarchy) : Visit → Attempt Unit
  | mixinTarget target => remapPrivateTarget target
  | member place method linkage => remapMethodLinkage hierarchy place method linkage
  | targetMethod place target => remapTargetMethod place target
  | .point place data => remapPoint hierarchy place data

/-- The edits that remapping puts out at a visit. -/
def Visit.edits (hierarchy : Hierarchy) (visit : Visit) (now : Table) : List LiteralEdit :=
  ((visit.attempt hierarchy).run now).output.edits

/-- The visits that remapping a linkage makes: to all literals of an injection, its target methods
first. -/
inductive LinkageVisit (hierarchy : Hierarchy) (place : Place) (method : MethodDecl) (linkage : Linkage)
    (start : Table) : Visit → Table → Prop where
  | member (plain : linkage.injection? = none) :
      LinkageVisit hierarchy place method linkage start (.member place method linkage) start
  | targetMethod {data : InjectData} {target : ParsedLiteral MemberReference} {now : Table}
      (injects : linkage.injection? = some data)
      (comes : Attempt.ComesTo (remapTargetMethod place) data.methods start target now) :
      LinkageVisit hierarchy place method linkage start (.targetMethod place target) now
  | point {data : InjectData} {point : PointData} {now : Table}
      (injects : linkage.injection? = some data)
      (done : ((Attempt.each (remapTargetMethod place) data.methods).run start).value = .ok ())
      (comes : Attempt.ComesTo (remapPoint hierarchy place) data.allPoints
        ((Attempt.each (remapTargetMethod place) data.methods).run start).table point now) :
      LinkageVisit hierarchy place method linkage start (.point place point) now

/-- Remapping a source file comes to a class that is a mixin. -/
structure MixinReached (hierarchy : Hierarchy) (unit : SourceUnit) (start : Table) (decl : ClassDecl)
    (mixin : MixinData) (now : Table) : Prop where
  reached : Remap.ComesTo (remapOne hierarchy) unit.walk start decl now
  isMixin : (MixinData.ofClass? decl).run.value = .ok (some mixin)

/-- The place of a method of a mixin class. -/
def Place.ofMethod (decl : ClassDecl) (targets : List ClassName) (method : MethodDecl) : Place :=
  ⟨decl.name, method.signature.text, targets⟩

/-- The fields of a mixin class with known targets, remapped one after the other. -/
def remapFields (decl : ClassDecl) (targets : List ClassName) : Remap Unit :=
  Remap.each (fun field => remapField ⟨decl.name, field.signature.text, targets⟩ field) decl.fields

/-- Remapping the members of a mixin class comes to a method, after the fields and the methods before
it. -/
def MethodReached (hierarchy : Hierarchy) (decl : ClassDecl) (targets : List ClassName) (start : Table)
    (method : MethodDecl) (now : Table) : Prop :=
  Remap.ComesTo
    (fun method =>
      remapMethod hierarchy (.ofMethod decl targets method) (softInterfaces decl start).value method)
    decl.methods (remapFields decl targets (softInterfaces decl start).table).table method now

/-- Remapping a method comes to an annotation that makes a linkage. -/
structure MarkReached (hierarchy : Hierarchy) (place : Place) (method : MethodDecl) (start : Table)
    (linkage : Linkage) (mark : Annotation) (now : Table) : Prop where
  reached : Remap.ComesTo (fun mark => orReport place (remapMethodMark hierarchy place method mark))
    method.annotations start mark now
  isLinkage : (Linkage.ofMethod? mark method).run.value = .ok (some linkage)

/-- The visits that remapping a source file makes. A mixin without known targets is left after its own
literals. -/
inductive Visited (hierarchy : Hierarchy) (unit : SourceUnit) (start : Table) : Visit → Table → Prop where
  | mixinTarget {decl : ClassDecl} {mixin : MixinData} {target : ParsedLiteral ClassReference}
      {atClass now : Table} (mixinReached : MixinReached hierarchy unit start decl mixin atClass)
      (comes : Attempt.ComesTo remapPrivateTarget mixin.privateTargets atClass target now) :
      Visited hierarchy unit start (.mixinTarget target) now
  | linkage {decl : ClassDecl} {mixin : MixinData} {targets : List ClassName} {method : MethodDecl}
      {linkage : Linkage} {mark : Annotation} {visit : Visit}
      {atClass atTargets atMethod atLinkage now : Table}
      (mixinReached : MixinReached hierarchy unit start decl mixin atClass)
      (done : ((Attempt.each remapPrivateTarget mixin.privateTargets).run atClass).value = .ok ())
      (afterwards : atTargets
        = ((Attempt.each remapPrivateTarget mixin.privateTargets).run atClass).table)
      (known : (knownTargets hierarchy decl.name mixin.targetNames atTargets).value = targets)
      (someKnown : targets ≠ [])
      (methodReached : MethodReached hierarchy decl targets
        (knownTargets hierarchy decl.name mixin.targetNames atTargets).table method atMethod)
      (markReached : MarkReached hierarchy (.ofMethod decl targets method) method atMethod linkage mark
        atLinkage)
      (visits : LinkageVisit hierarchy (.ofMethod decl targets method) method linkage atLinkage
        visit now) :
      Visited hierarchy unit start visit now

/-! ## The edits of a source file -/

section Edits

variable {hierarchy : Hierarchy} {place : Place} {edit : LiteralEdit} {table : Table}

/-- The edits of an attempt stay if it fails and its failure is dealt with. -/
theorem mem_edits_orElse {attempt : Attempt Unit} {handle : Failure → Remap Unit}
    (handled : ∀ failure now, (handle failure now).output.edits = []) :
    edit ∈ (attempt.orElse handle table).output.edits ↔ edit ∈ (attempt.run table).output.edits := by
  unfold Attempt.orElse
  rw [Remap.mem_edits_bind]
  apply or_iff_left
  intro later
  cases result : (attempt.run table).value with
  | ok _ =>
      rw [result] at later
      cases later
  | error failure =>
      rw [result] at later
      simp only [handled failure _] at later
      cases later

/-- A linkage that injects is remapped as an injection. -/
theorem remapMethodLinkage_of_injection {method : MethodDecl} {linkage : Linkage} {data : InjectData}
    (injects : linkage.injection? = some data) :
    remapMethodLinkage hierarchy place method linkage = remapInjection hierarchy place data := by
  cases linkage <;> cases injects <;> rfl

private theorem mem_edits_linkage {method : MethodDecl} {linkage : Linkage} :
    edit ∈ ((remapMethodLinkage hierarchy place method linkage).run table).output.edits
      ↔ ∃ visit now, LinkageVisit hierarchy place method linkage table visit now
        ∧ edit ∈ visit.edits hierarchy now := by
  cases injects : linkage.injection? with
  | none =>
      constructor
      · intro member
        exact ⟨.member place method linkage, table, .member injects, member⟩
      · rintro ⟨visit, now, visits, member⟩
        cases visits with
        | member => exact member
        | targetMethod isInjection =>
            rw [injects] at isInjection
            cases isInjection
        | point isInjection =>
            rw [injects] at isInjection
            cases isInjection
  | some data =>
      rw [remapMethodLinkage_of_injection injects, remapInjection, Attempt.mem_edits_bind]
      constructor
      · rintro (inMethods | ⟨_, done, inPoints⟩)
        · obtain ⟨target, now, comes, member⟩ := Attempt.ComesTo.mem_edits_each.1 inMethods
          exact ⟨.targetMethod place target, now, .targetMethod injects comes, member⟩
        · obtain ⟨point, now, comes, member⟩ := Attempt.ComesTo.mem_edits_each.1 inPoints
          exact ⟨.point place point, now, .point injects done comes, member⟩
      · rintro ⟨visit, now, visits, member⟩
        cases visits with
        | member plain =>
            rw [injects] at plain
            cases plain
        | targetMethod isInjection comes =>
            rw [injects] at isInjection
            cases isInjection
            exact .inl (Attempt.ComesTo.mem_edits_each.2 ⟨_, _, comes, member⟩)
        | point isInjection done comes =>
            rw [injects] at isInjection
            cases isInjection
            exact .inr ⟨(), done, Attempt.ComesTo.mem_edits_each.2 ⟨_, _, comes, member⟩⟩

private theorem mem_edits_mark {method : MethodDecl} {mark : Annotation} :
    edit ∈ (orReport place (remapMethodMark hierarchy place method mark) table).output.edits
      ↔ ∃ linkage, (Linkage.ofMethod? mark method).run.value = .ok (some linkage)
        ∧ edit ∈ ((remapMethodLinkage hierarchy place method linkage).run table).output.edits := by
  rw [orReport, mem_edits_orElse (fun _ _ => rfl), remapMethodMark, Attempt.mem_edits_bind]
  constructor
  · rintro (early | ⟨linkage, isLinkage, later⟩)
    · cases early
    · cases linkage with
      | none => cases later
      | some linkage =>
          refine ⟨linkage, isLinkage, ?_⟩
          rcases Attempt.mem_edits_bind.1 later with logged | ⟨_, _, inLinkage⟩
          · cases logged
          · exact inLinkage
  · rintro ⟨linkage, isLinkage, member⟩
    refine .inr ⟨some linkage, isLinkage, ?_⟩
    exact Attempt.mem_edits_bind.2 (.inr ⟨(), rfl, member⟩)

private theorem mem_edits_method {method : MethodDecl} {interfaces : List InterfaceData} :
    edit ∈ (remapMethod hierarchy place interfaces method table).output.edits
      ↔ ∃ linkage mark now, MarkReached hierarchy place method table linkage mark now
        ∧ edit ∈ ((remapMethodLinkage hierarchy place method linkage).run now).output.edits := by
  have soft : Remap.EditsAmong [] (Remap.each (fun data =>
      orReport place (remapSoftImplementation hierarchy place method data)) interfaces) := by
    refine .eachSilent fun data _ => Attempt.EditsAmong.orElse ?_ fun _ => .silent fun _ => rfl
    have links : Linking hierarchy (.inInterface data.interface) []
        (remapSoftImplementation hierarchy place method data) :=
      linking_remapSoftImplementation trivial rfl
    exact links.editsAmong
  rw [remapMethod, Remap.mem_edits_bind, (soft _).eq_nil, or_iff_left List.not_mem_nil,
    Remap.ComesTo.mem_edits_each]
  constructor
  · rintro ⟨mark, now, comes, member⟩
    obtain ⟨linkage, isLinkage, inLinkage⟩ := mem_edits_mark.1 member
    exact ⟨linkage, mark, now, ⟨comes, isLinkage⟩, inLinkage⟩
  · rintro ⟨linkage, mark, now, reached, member⟩
    exact ⟨mark, now, reached.reached, mem_edits_mark.2 ⟨linkage, reached.isLinkage, member⟩⟩

private theorem mem_edits_members {decl : ClassDecl} {targets : List ClassName} :
    edit ∈ (remapMembers hierarchy decl targets table).output.edits
      ↔ ∃ method atMethod linkage mark now, MethodReached hierarchy decl targets table method atMethod
        ∧ MarkReached hierarchy (.ofMethod decl targets method) method atMethod linkage mark now
        ∧ edit ∈ ((remapMethodLinkage hierarchy (.ofMethod decl targets method) method linkage).run
          now).output.edits := by
  have fields : Remap.EditsAmong [] (remapFields decl targets) := by
    refine .eachSilent fun field member => ?_
    have remaps : Remapping hierarchy [decl] []
        (remapField ⟨decl.name, field.signature.text, targets⟩ field) :=
      remapping_remapField List.mem_cons_self rfl member
    exact remaps.editsAmong
  have split : remapMembers hierarchy decl targets = (do
      let interfaces ← softInterfaces decl
      remapFields decl targets
      Remap.each (fun method =>
        remapMethod hierarchy (.ofMethod decl targets method) interfaces method) decl.methods) := rfl
  rw [split, Remap.mem_edits_bind, (silent_softInterfaces decl table).1, or_iff_right List.not_mem_nil,
    Remap.mem_edits_bind, (fields _).eq_nil, or_iff_right List.not_mem_nil, Remap.ComesTo.mem_edits_each]
  constructor
  · rintro ⟨method, atMethod, comes, member⟩
    obtain ⟨linkage, mark, now, reached, inLinkage⟩ := mem_edits_method.1 member
    exact ⟨method, atMethod, linkage, mark, now, comes, reached, inLinkage⟩
  · rintro ⟨method, atMethod, linkage, mark, now, comes, reached, member⟩
    exact ⟨method, atMethod, comes, mem_edits_method.2 ⟨linkage, mark, now, reached, member⟩⟩

private theorem mem_edits_mixin {decl : ClassDecl} :
    edit ∈ (remapOne hierarchy decl table).output.edits
      ↔ ∃ mixin, (MixinData.ofClass? decl).run.value = .ok (some mixin)
        ∧ (edit ∈ ((Attempt.each remapPrivateTarget mixin.privateTargets).run table).output.edits
          ∨ ((Attempt.each remapPrivateTarget mixin.privateTargets).run table).value = .ok ()
            ∧ ∃ atTargets targets, atTargets
                = ((Attempt.each remapPrivateTarget mixin.privateTargets).run table).table
              ∧ (knownTargets hierarchy decl.name mixin.targetNames atTargets).value = targets
              ∧ targets ≠ []
              ∧ edit ∈ (remapMembers hierarchy decl targets
                (knownTargets hierarchy decl.name mixin.targetNames atTargets).table).output.edits) := by
  rw [remapOne, mem_edits_orElse (fun _ _ => rfl), remapMixin, Attempt.mem_edits_bind]
  constructor
  · rintro (early | ⟨mixin, isMixin, later⟩)
    · cases early
    · cases mixin with
      | none => cases later
      | some mixin =>
          refine ⟨mixin, isMixin, ?_⟩
          rcases Attempt.mem_edits_bind.1 later with inPrivates | ⟨_, done, inMembers⟩
          · exact .inl inPrivates
          · refine .inr ⟨done, _, _, rfl, rfl, ?_⟩
            rcases Attempt.mem_edits_bind.1 inMembers with inTargets | ⟨targets, isTargets, member⟩
            · rw [Attempt.run_lift, Output.append_empty, silent_knownTargets] at inTargets
              cases inTargets
            · rw [Attempt.run_lift] at isTargets
              cases isTargets
              split at member
              · cases member
              · rename_i targets someKnown
                refine ⟨someKnown, ?_⟩
                simpa using member
  · rintro ⟨mixin, isMixin, edits⟩
    refine .inr ⟨some mixin, isMixin, Attempt.mem_edits_bind.2 ?_⟩
    rcases edits with inPrivates | ⟨done, atTargets, targets, rfl, rfl, someKnown, member⟩
    · exact .inl inPrivates
    · refine .inr ⟨(), done, Attempt.mem_edits_bind.2 (.inr ⟨_, rfl, ?_⟩)⟩
      split
      · rename_i noneKnown
        exact absurd noneKnown someKnown
      · simpa using member

/-- The edits of a source file are the edits of its visits. -/
theorem mem_edits_remapUnit {unit : SourceUnit} :
    edit ∈ (remapUnit hierarchy table unit).value.1.edits
      ↔ ∃ visit now, Visited hierarchy unit table visit now ∧ edit ∈ visit.edits hierarchy now := by
  have edits : (remapUnit hierarchy table unit).value.1.edits
      = (Remap.each (remapOne hierarchy) unit.walk table).output.edits := rfl
  rw [edits, Remap.ComesTo.mem_edits_each]
  constructor
  · rintro ⟨decl, atClass, reached, member⟩
    obtain ⟨mixin, isMixin, inMixin⟩ := mem_edits_mixin.1 member
    rcases inMixin with inPrivates | ⟨done, atTargets, targets, afterwards, known, someKnown, inMembers⟩
    · obtain ⟨target, now, comes, inTarget⟩ := Attempt.ComesTo.mem_edits_each.1 inPrivates
      exact ⟨.mixinTarget target, now, .mixinTarget ⟨reached, isMixin⟩ comes, inTarget⟩
    · obtain ⟨method, atMethod, linkage, mark, atLinkage, methodReached, markReached, inLinkage⟩ :=
        mem_edits_members.1 inMembers
      obtain ⟨visit, now, visits, inVisit⟩ := mem_edits_linkage.1 inLinkage
      exact ⟨visit, now, .linkage ⟨reached, isMixin⟩ done afterwards known someKnown methodReached
        markReached visits, inVisit⟩
  · rintro ⟨visit, now, visited, inVisit⟩
    cases visited with
    | mixinTarget mixinReached comes =>
        refine ⟨_, _, mixinReached.reached, mem_edits_mixin.2 ⟨_, mixinReached.isMixin, .inl ?_⟩⟩
        exact Attempt.ComesTo.mem_edits_each.2 ⟨_, _, comes, inVisit⟩
    | linkage mixinReached done afterwards known someKnown methodReached markReached visits =>
        refine ⟨_, _, mixinReached.reached, mem_edits_mixin.2 ⟨_, mixinReached.isMixin, .inr ?_⟩⟩
        refine ⟨done, _, _, afterwards, known, someKnown, mem_edits_members.2 ?_⟩
        exact ⟨_, _, _, _, _, methodReached, markReached, mem_edits_linkage.2 ⟨_, _, visits, inVisit⟩⟩

end Edits

/-! ## Tables on the way -/

section Evolving

variable {hierarchy : Hierarchy} {unit : SourceUnit} {start now : Table} {decl : ClassDecl}
  {method : MethodDecl} {visit : Visit}

/-- A mixin that is reached is a class of the source file. -/
theorem MixinReached.declared {mixin : MixinData}
    (mixinReached : MixinReached hierarchy unit start decl mixin now) : decl ∈ unit.walk :=
  mixinReached.reached.mem

variable {first : Table}

/-- A mixin is reached at a table that comes from the start by changes that remapping makes. -/
theorem MixinReached.kept {mixin : MixinData} (sound : start.Sound)
    (mixinReached : MixinReached hierarchy unit start decl mixin now) :
    (evolving hierarchy unit.walk start).kept now :=
  mixinReached.reached.kept ⟨sound, .refl⟩ fun _ declared => (evolving_permits start).meets_remapOne declared

/-- On the way from a class to one of its methods, remapping makes the changes that are listed. -/
theorem MethodReached.kept {targets : List ClassName} (declared : decl ∈ unit.walk)
    (evolved : (evolving hierarchy unit.walk first).kept start)
    (methodReached : MethodReached hierarchy decl targets start method now) :
    (evolving hierarchy unit.walk first).kept now := by
  have fields : Remapping hierarchy unit.walk [] (remapFields decl targets) :=
    .eachSilent fun _ member => remapping_remapField declared rfl member
  unfold MethodReached at methodReached
  rw [(silent_softInterfaces decl start).2] at methodReached
  refine methodReached.kept
    (fields.meets (evolving_permits first) start evolved).kept fun method member => ?_
  exact (remapping_remapMethod _ declared rfl member).meets (evolving_permits first)

/-- On the way from a method to one of its linkages, remapping makes the changes that are listed. -/
theorem MarkReached.kept {place : Place} {linkage : Linkage} {mark : Annotation}
    (declared : decl ∈ unit.walk) (here : place.className = decl.name) (member : method ∈ decl.methods)
    (evolved : (evolving hierarchy unit.walk first).kept start)
    (markReached : MarkReached hierarchy place method start linkage mark now) :
    (evolving hierarchy unit.walk first).kept now :=
  markReached.reached.kept evolved fun _ isMark =>
    (remapping_remapMethodMark declared here member isMark).meets (evolving_permits first)

/-- On the way from a linkage to one of its literals, remapping makes the changes that are listed. -/
theorem LinkageVisit.kept {place : Place} {linkage : Linkage} {decls : List ClassDecl}
    (readBy : ∀ data, linkage.injection? = some data → data.ReadByParse)
    (evolved : (evolving hierarchy decls first).kept start)
    (visits : LinkageVisit hierarchy place method linkage start visit now) :
    (evolving hierarchy decls first).kept now := by
  have permits : (evolving hierarchy decls first).Permits hierarchy decls := evolving_permits first
  have methods (data : InjectData) (injects : linkage.injection? = some data) :
      ∀ target ∈ data.methods,
        (remapTargetMethod place target).Meets (evolving hierarchy decls first) fun _ => False :=
    fun target member => (Injecting.targetMethod ((readBy data injects).methods target member)).meets permits
  cases visits with
  | member plain => exact evolved
  | targetMethod injects comes => exact comes.kept evolved (methods _ injects)
  | point injects done comes =>
      have points : ∀ point ∈ _, (remapPoint hierarchy place point).Meets _ fun _ => False :=
        fun point member => (injecting_remapPoint ((readBy _ injects).points point member)).meets permits
      exact comes.kept (Attempt.Meets.each (methods _ injects) start evolved).kept points

/-- The table of a visit comes from the start by changes that remapping makes. -/
theorem Visited.kept (sound : start.Sound) (visited : Visited hierarchy unit start visit now) :
    (evolving hierarchy unit.walk start).kept now := by
  have permits : (evolving hierarchy unit.walk start).Permits hierarchy unit.walk := evolving_permits start
  have privates {decl : ClassDecl} {mixin : MixinData}
      (isMixin : (MixinData.ofClass? decl).run.value = .ok (some mixin)) :
      ∀ target ∈ mixin.privateTargets,
        (remapPrivateTarget target).Meets (evolving hierarchy unit.walk start) decl.FailsToRead :=
    fun target member =>
      (Classing.privateTarget (MixinData.readBy_ofClass? isMixin target member)).meets permits
  cases visited with
  | mixinTarget mixinReached comes =>
      exact comes.kept (mixinReached.kept sound) (privates mixinReached.isMixin)
  | @linkage decl mixin _ _ _ _ _ atClass _ _ _ _ mixinReached done afterwards known someKnown methodReached
      markReached visits =>
      have declared := mixinReached.declared
      have readFrom := Linkage.readFrom_ofMethod? markReached.isLinkage
      have afterPrivates :=
        (Attempt.Meets.each (privates mixinReached.isMixin) atClass (mixinReached.kept sound)).kept
      have knowing : Remapping hierarchy unit.walk []
          (knownTargets hierarchy decl.name mixin.targetNames >>= fun _ => pure ()) :=
        .knowing _ fun _ => .nothing
      rw [← afterwards] at afterPrivates
      have atTargets := (knowing.meets permits _ afterPrivates).kept
      exact visits.kept readFrom.injection
        (markReached.kept declared rfl methodReached.mem (methodReached.kept declared atTargets))

/-- The table of a visit evolves from the start. -/
theorem Visited.evolves (sound : start.Sound) (visited : Visited hierarchy unit start visit now) :
    Evolves hierarchy unit.walk start now :=
  (visited.kept sound).2

/-- The target methods that are visited are taken for what their literals are read as. -/
theorem Visited.targetMethod_readBy {place : Place} {target : ParsedLiteral MemberReference}
    (visited : Visited hierarchy unit start (.targetMethod place target) now) :
    target.ReadBy MemberReference.parse := by
  cases visited with
  | linkage _ _ _ _ _ _ markReached visits =>
      cases visits with
      | targetMethod injects comes =>
          have readFrom := Linkage.readFrom_ofMethod? markReached.isLinkage
          exact (readFrom.injection _ injects).methods target comes.mem

/-- The injection points that are visited are taken for what their literals are read as. -/
theorem Visited.point_readBy {place : Place} {point : PointData}
    (visited : Visited hierarchy unit start (.point place point) now) : point.ReadByParse := by
  cases visited with
  | linkage _ _ _ _ _ _ markReached visits =>
      cases visits with
      | point injects done comes =>
          have readFrom := Linkage.readFrom_ofMethod? markReached.isLinkage
          exact (readFrom.injection _ injects).points point comes.mem

end Evolving

end MixinLink
