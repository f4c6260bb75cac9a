import MixinLink.Proofs.ClassMapping
import MixinLink.Proofs.Reachable
import MixinLink.Proofs.Visits

/-!
# Annotations that cannot be read

An annotation of a field or a method that cannot be read is reported, and that is all: a source file
without it gives the same edits, the same table and the same diagnostics but for this one. If the class is
passed over, there is no report either.

Main exports: `Step.AlsoReports`, `ClassDecl.DropsMark`, `SourceUnit.DropsMark`, `ClassDecl.PassedOver`,
`remapUnit_of_dropsMark`.
-/

namespace MixinLink

variable {α β : Type}

/-! ## Steps that differ by a report -/

/-- The first step ends like the second, and has some diagnostics in addition, all at one place. -/
structure Step.AlsoReports (extra : List Diagnostic) (first second : Step α) : Prop where
  value : first.value = second.value
  table : first.table = second.table
  edits : first.output.edits = second.output.edits
  diagnostics : ∃ before after, second.output.diagnostics = before ++ after
    ∧ first.output.diagnostics = before ++ (extra ++ after)

namespace Step.AlsoReports

variable {extra : List Diagnostic} {table : Table}

/-- A step reports what it reports. -/
theorem refl (step : Step α) : AlsoReports [] step step :=
  ⟨rfl, rfl, rfl, [], step.output.diagnostics, rfl, rfl⟩

/-- What follows both steps is the same. -/
theorem bindFirst {first second : Remap α} (rest : α → Remap β)
    (also : AlsoReports extra (first table) (second table)) :
    AlsoReports extra ((first >>= rest) table) ((second >>= rest) table) := by
  obtain ⟨before, after, fewer, more⟩ := also.diagnostics
  rw [Remap.run_bind, Remap.run_bind, also.value, also.table]
  let later := (rest (second table).value (second table).table).output.diagnostics
  refine ⟨rfl, rfl, ?_, before, after ++ later, ?_, ?_⟩
  · rw [Output.edits_append, Output.edits_append, also.edits]
  · rw [Output.diagnostics_append, fewer, List.append_assoc]
  · rw [Output.diagnostics_append, more, List.append_assoc, List.append_assoc]

/-- What comes before both steps is the same. -/
theorem bindRest (first : Remap α) {rest others : α → Remap β}
    (also : AlsoReports extra (rest (first table).value (first table).table)
      (others (first table).value (first table).table)) :
    AlsoReports extra ((first >>= rest) table) ((first >>= others) table) := by
  obtain ⟨before, after, fewer, more⟩ := also.diagnostics
  rw [Remap.run_bind, Remap.run_bind]
  refine ⟨also.value, also.table, ?_, (first table).output.diagnostics ++ before, after, ?_, ?_⟩
  · rw [Output.edits_append, Output.edits_append, also.edits]
  · rw [Output.diagnostics_append, fewer, List.append_assoc]
  · rw [Output.diagnostics_append, more, List.append_assoc]

/-- Of the items, one is replaced. -/
theorem eachReplaced {step : α → Remap Unit} {item other : α} {before : List α} (after : List α)
    (also : AlsoReports extra (step item (Remap.each step before table).table)
      (step other (Remap.each step before table).table)) :
    AlsoReports extra (Remap.each step (before ++ item :: after) table)
      (Remap.each step (before ++ other :: after) table) := by
  induction before generalizing table with
  | nil => exact also.bindFirst _
  | cons first before ih => exact bindRest (step first) (ih also)

/-- Of the items, one is left out. -/
theorem eachDropped {step : α → Remap Unit} {item : α}
    (also : ∀ now, AlsoReports extra (step item now) ((pure () : Remap Unit) now)) (before after : List α) :
    AlsoReports extra (Remap.each step (before ++ item :: after) table)
      (Remap.each step (before ++ after) table) := by
  induction before generalizing table with
  | nil => exact (also table).bindFirst fun _ => Remap.each step after
  | cons first before ih => exact bindRest (step first) ih

/-- A step that cannot fail, as an attempt. -/
theorem lift {step other : Remap α} (also : AlsoReports extra (step table) (other table)) :
    AlsoReports extra ((liftM step : Attempt α).run table) ((liftM other : Attempt α).run table) :=
  also.bindFirst fun value => (pure (.ok value) : Remap (Checked α))

/-- What both attempts do first gives a value. -/
theorem bindOk {first : Attempt α} {rest others : α → Attempt β} {value : α} {now : Table}
    (success : (first.run table).value = .ok value) (afterwards : (first.run table).table = now)
    (also : AlsoReports extra ((rest value).run now) ((others value).run now)) :
    AlsoReports extra ((first >>= rest).run table) ((first >>= others).run table) := by
  subst afterwards
  have run : AlsoReports extra
      (ExceptT.bindCont rest (first.run table).value (first.run table).table)
      (ExceptT.bindCont others (first.run table).value (first.run table).table) := by
    rw [success]
    exact also
  exact bindRest first.run run

/-- The same step before attempts that report more. -/
theorem bindLift (first : Remap α) {rest others : α → Attempt β}
    (also : AlsoReports extra ((rest (first table).value).run (first table).table)
      ((others (first table).value).run (first table).table)) :
    AlsoReports extra ((liftM first >>= rest : Attempt β).run table)
      ((liftM first >>= others : Attempt β).run table) :=
  bindOk rfl rfl also

/-- What both attempts do first fails. -/
theorem bindError {first : Attempt α} {rest others : α → Attempt β} {failure : Failure}
    (failed : (first.run table).value = .error failure) :
    AlsoReports [] ((first >>= rest).run table) ((first >>= others).run table) := by
  rw [Attempt.run_bind_of_error failed, Attempt.run_bind_of_error failed]
  exact .refl _

/-- The same handling of failures. -/
theorem orElse {attempt other : Attempt Unit} (handle : Failure → Remap Unit)
    (also : AlsoReports extra (attempt.run table) (other.run table)) :
    AlsoReports extra (attempt.orElse handle table) (other.orElse handle table) :=
  also.bindFirst _

end Step.AlsoReports

/-! ## Declarations without an annotation -/

namespace ClassDecl

/-- The second class is the first without an annotation of a field or a method that cannot be read. The
member is given by its signature, and the failure is that of reading the annotation. -/
inductive DropsMark : ClassDecl → ClassDecl → String → Failure → Prop where
  | field {name : ClassName} {annotations front back : List Annotation} {before after : List FieldDecl}
      {field : FieldDecl} {methods : List MethodDecl} {inner : List ClassDecl} {mark : Annotation}
      {failure : Failure} (unreadable : Linkage.ofField? mark = .error failure) :
      DropsMark
        (mk name annotations (before ++ { field with annotations := front ++ mark :: back } :: after)
          methods inner)
        (mk name annotations (before ++ { field with annotations := front ++ back } :: after)
          methods inner)
        field.signature.text failure
  | method {name : ClassName} {annotations front back : List Annotation} {fields : List FieldDecl}
      {before after : List MethodDecl} {method : MethodDecl} {inner : List ClassDecl} {mark : Annotation}
      {failure : Failure}
      (unreadable : (Linkage.ofMethod? mark
        { method with annotations := front ++ mark :: back }).run.value = .error failure) :
      DropsMark
        (mk name annotations fields
          (before ++ { method with annotations := front ++ mark :: back } :: after) inner)
        (mk name annotations fields (before ++ { method with annotations := front ++ back } :: after)
          inner)
        method.signature.text failure

/-- The second declaration is the first with another class in the place of one. The classes that are come
to before that one are listed. -/
inductive Replaced (decl other : ClassDecl) : ClassDecl → ClassDecl → List ClassDecl → Prop where
  | here : Replaced decl other decl other []
  | nested {name : ClassName} {annotations : List Annotation} {fields : List FieldDecl}
      {methods : List MethodDecl} {before after earlier : List ClassDecl} {whole part : ClassDecl}
      (below : Replaced decl other whole part earlier) :
      Replaced decl other (mk name annotations fields methods (before ++ whole :: after))
        (mk name annotations fields methods (before ++ part :: after))
        (mk name annotations fields methods (before ++ whole :: after) :: (walkAll before ++ earlier))

/-- The class without the classes nested in it. -/
def alone (decl : ClassDecl) : ClassDecl :=
  mk decl.name decl.annotations decl.fields decl.methods []

private theorem alone_mk (name : ClassName) (annotations : List Annotation) (fields : List FieldDecl)
    (methods : List MethodDecl) (inner : List ClassDecl) :
    (mk name annotations fields methods inner).alone = mk name annotations fields methods [] := rfl

private theorem walk_eq (decl : ClassDecl) : decl.walk = decl :: walkAll decl.inner := by
  cases decl
  rw [walk, inner]

private theorem walkAll_append (decls others : List ClassDecl) :
    walkAll (decls ++ others) = walkAll decls ++ walkAll others := by
  induction decls with
  | nil => rfl
  | cons decl rest ih => rw [List.cons_append, walkAll, walkAll, ih, List.append_assoc]

/-- Apart from the class that is replaced, the same classes are come to on both sides. -/
theorem Replaced.map_walk {decl other whole part : ClassDecl} {earlier : List ClassDecl}
    (replaced : Replaced decl other whole part earlier) (sameInner : decl.inner = other.inner) :
    ∃ later, whole.walk.map alone = earlier.map alone ++ decl.alone :: later
      ∧ part.walk.map alone = earlier.map alone ++ other.alone :: later := by
  induction replaced with
  | here =>
      refine ⟨(walkAll decl.inner).map alone, ?_, ?_⟩
      · rw [walk_eq]
        rfl
      · rw [walk_eq, ← sameInner]
        rfl
  | @nested _ _ _ _ before after earlier whole part _ ih =>
      obtain ⟨later, isWhole, isPart⟩ := ih
      refine ⟨later ++ (walkAll after).map alone, ?_, ?_⟩
      · simp [walk, alone_mk, walkAll_append, walkAll, isWhole]
      · simp [walk, alone_mk, walkAll_append, walkAll, isPart]

/-- The class is passed over: it has no `@Mixin` that can be read, or nothing is known about any of its
targets. -/
def PassedOver (hierarchy : Hierarchy) (table : Table) (decl : ClassDecl) : Prop :=
  ∀ mixin, (MixinData.ofClass? decl).run.value = .ok (some mixin) →
    ∀ target ∈ mixin.targetNames, table.find? target = none ∧ hierarchy.find? target = none

namespace DropsMark

variable {decl other : ClassDecl} {member : String} {failure : Failure}

/-- Dropping a mark leaves the name of the class. -/
theorem sameName (drops : decl.DropsMark other member failure) : decl.name = other.name := by
  cases drops <;> rfl

private theorem sameAnnotations (drops : decl.DropsMark other member failure) :
    decl.annotations = other.annotations := by
  cases drops <;> rfl

/-- Dropping a mark leaves the nested classes. -/
theorem sameInner (drops : decl.DropsMark other member failure) : decl.inner = other.inner := by
  cases drops <;> rfl

end DropsMark

end ClassDecl

/-- The second source file is the first without an annotation, in one class, of a field or a method that
cannot be read. -/
inductive SourceUnit.DropsMark (decl : ClassDecl) (member : String) (failure : Failure) :
    SourceUnit → SourceUnit → List ClassDecl → Prop where
  | intro {path : String} {before after earlier : List ClassDecl} {other whole part : ClassDecl}
      (drops : decl.DropsMark other member failure)
      (replaced : ClassDecl.Replaced decl other whole part earlier) :
      DropsMark decl member failure ⟨path, before ++ whole :: after⟩ ⟨path, before ++ part :: after⟩
        (ClassDecl.walkAll before ++ earlier)

/-! ## Members -/

section Members

variable {hierarchy : Hierarchy} {table : Table} {mark : Annotation} {failure : Failure}

open Step (AlsoReports)

/-- An attempt that fails at once is reported and does nothing else. -/
theorem alsoReports_orReport {place : Place} {attempt : Attempt Unit}
    (fails : (attempt.run table).value = .error failure) (still : (attempt.run table).table = table)
    (quiet : (attempt.run table).output = .empty) :
    AlsoReports [.malformedLinkage place.className (some place.member) failure.message]
      (orReport place attempt table) ((pure () : Remap Unit) table) := by
  rw [orReport, Attempt.orElse, Remap.run_bind, fails, still, quiet]
  exact ⟨rfl, rfl, rfl, [], [], rfl, rfl⟩

private theorem alsoReports_remapField (place : Place) (field : FieldDecl)
    (unreadable : Linkage.ofField? mark = .error failure) (front back : List Annotation) :
    AlsoReports [.malformedLinkage place.className (some place.member) failure.message]
      (remapField place { field with annotations := front ++ mark :: back } table)
      (remapField place { field with annotations := front ++ back } table) := by
  have split : ∀ marks, remapField place { field with annotations := marks }
      = Remap.each (fun mark => orReport place (remapFieldMark place field mark)) marks :=
    fun _ => rfl
  rw [split, split]
  apply AlsoReports.eachDropped
  intro now
  have fails : ((Attempt.check (Linkage.ofField? mark)).run now).value = .error failure := unreadable
  apply alsoReports_orReport
  all_goals rw [remapFieldMark, Attempt.run_bind_of_error fails]
  all_goals rfl

private theorem alsoReports_remapMethod (place : Place) (method : MethodDecl)
    (interfaces : List InterfaceData)
    (unreadable : (Linkage.ofMethod? mark method).run.value = .error failure)
    (front back : List Annotation) :
    AlsoReports [.malformedLinkage place.className (some place.member) failure.message]
      (remapMethod hierarchy place interfaces { method with annotations := front ++ mark :: back } table)
      (remapMethod hierarchy place interfaces { method with annotations := front ++ back } table) := by
  have split : ∀ marks, remapMethod hierarchy place interfaces { method with annotations := marks }
      = (Remap.each (fun mark => orReport place (remapMethodMark hierarchy place method mark)) marks
        >>= fun _ => Remap.each
          (fun data => orReport place (remapSoftImplementation hierarchy place method data)) interfaces) :=
    fun _ => rfl
  rw [split, split]
  apply AlsoReports.bindFirst
  apply AlsoReports.eachDropped
  intro now
  have fails : ((Attempt.read (Linkage.ofMethod? mark method)).run now).value = .error failure := unreadable
  apply alsoReports_orReport
  all_goals rw [remapMethodMark, Attempt.run_bind_of_error fails]
  all_goals rfl

private theorem alsoReports_remapMembers {decl other : ClassDecl} {member : String}
    (drops : decl.DropsMark other member failure) (targets : List ClassName) :
    AlsoReports [.malformedLinkage decl.name (some member) failure.message]
      (remapMembers hierarchy decl targets table) (remapMembers hierarchy other targets table) := by
  cases drops with
  | @field name _ front back _ _ field _ _ _ _ unreadable =>
      refine .bindRest (softInterfaces _) (.bindFirst _ (.eachReplaced _ ?_))
      exact alsoReports_remapField ⟨name, field.signature.text, targets⟩ field unreadable front back
  | @method name _ front back _ _ _ method _ _ _ unreadable =>
      refine .bindRest (softInterfaces _) (.bindRest (Remap.each _ _) (.eachReplaced _ ?_))
      exact alsoReports_remapMethod ⟨name, method.signature.text, targets⟩ method _ unreadable front back

end Members

/-! ## Classes -/

section Classes

variable {hierarchy : Hierarchy} {table : Table}

open Step (AlsoReports)

private theorem knownTargets_eq_nil {className : ClassName} {targets : List ClassName} :
    (knownTargets hierarchy className targets table).value = []
      ↔ ∀ target ∈ targets, table.find? target = none ∧ hierarchy.find? target = none := by
  induction targets generalizing table with
  | nil => simp [knownTargets]
  | cons target rest ih =>
      rw [List.forall_mem_cons]
      by_cases unknown : table.find? target = none ∧ hierarchy.find? target = none
      · have run : (knownTargets hierarchy className (target :: rest) table).value
            = (knownTargets hierarchy className rest table).value := by
          rw [knownTargets, Remap.run_bind, run_resolveClass_of_unknown unknown.1 unknown.2]
          rfl
        rw [run, ih, and_iff_right unknown]
      · have known : (resolveClass hierarchy target table).value = true := by
          rw [run_resolveClass, if_neg (by simpa using unknown)]
        have first : (knownTargets hierarchy className (target :: rest) table).value
            = target :: (knownTargets hierarchy className rest
              (resolveClass hierarchy target table).table).value := by
          rw [knownTargets, Remap.run_bind, known]
          rfl
        simp [first, unknown]

/-- In a sound table, the strings that name targets are edited without a failure or a report. -/
theorem run_remapPrivateTarget (sound : table.Sound) (target : ParsedLiteral ClassReference) :
    ((remapPrivateTarget target).run table).value = .ok ()
      ∧ ((remapPrivateTarget target).run table).table = table
      ∧ ((remapPrivateTarget target).run table).output.diagnostics = [] := by
  unfold remapPrivateTarget
  cases target.parsed with
  | none => exact ⟨rfl, rfl, rfl⟩
  | some reference =>
      simp only [Attempt.run_bind_table]
      cases table.literalNode? target.literal.value with
      | none => exact ⟨rfl, rfl, rfl⟩
      | some node =>
          obtain ⟨mapped, maps⟩ := sound.exists_mapClass node.1.name
          simp [Attempt.run_bind_check maps, Attempt.run_lift]

private theorem run_remapPrivateTargets (sound : table.Sound)
    (targets : List (ParsedLiteral ClassReference)) :
    ((Attempt.each remapPrivateTarget targets).run table).value = .ok ()
      ∧ ((Attempt.each remapPrivateTarget targets).run table).table = table
      ∧ ((Attempt.each remapPrivateTarget targets).run table).output.diagnostics = [] := by
  induction targets with
  | nil => exact ⟨rfl, rfl, rfl⟩
  | cons target rest ih =>
      obtain ⟨success, still, quiet⟩ := run_remapPrivateTarget sound target
      obtain ⟨restSuccess, restStill, restQuiet⟩ := ih
      rw [Attempt.each, Attempt.run_bind_of_ok success, still]
      exact ⟨restSuccess, restStill, by rw [Output.diagnostics_append, quiet, restQuiet, List.append_nil]⟩

section Dropped

variable {decl other : ClassDecl} {member : String} {failure : Failure}

private theorem ClassDecl.DropsMark.sameMixin (drops : decl.DropsMark other member failure) :
    MixinData.ofClass? decl = MixinData.ofClass? other := by
  unfold MixinData.ofClass?
  rw [drops.sameName, drops.sameAnnotations]

/-- A class that is passed over is remapped the same. -/
theorem alsoReports_of_passedOver (drops : decl.DropsMark other member failure) (sound : table.Sound)
    (passed : decl.PassedOver hierarchy table) :
    AlsoReports [] (remapOne hierarchy decl table) (remapOne hierarchy other table) := by
  unfold remapOne remapMixin
  rw [← drops.sameName, ← drops.sameMixin]
  apply AlsoReports.orElse
  cases read : (MixinData.ofClass? decl).run.value with
  | error failure => exact .bindError read
  | ok mixin =>
      refine .bindOk read rfl ?_
      cases mixin with
      | none => exact .refl _
      | some mixin =>
          obtain ⟨success, still, _⟩ := run_remapPrivateTargets sound mixin.privateTargets
          refine .bindOk success still (.bindLift _ ?_)
          rw [knownTargets_eq_nil.2 (passed mixin read)]
          exact .refl _

/-- A class that is not passed over reports the annotation. -/
theorem alsoReports_of_not_passedOver (drops : decl.DropsMark other member failure) (sound : table.Sound)
    (worked : ¬decl.PassedOver hierarchy table) :
    AlsoReports [.malformedLinkage decl.name (some member) failure.message]
      (remapOne hierarchy decl table) (remapOne hierarchy other table) := by
  obtain ⟨mixin, worked⟩ := not_forall.1 worked
  obtain ⟨read, someKnown⟩ := Classical.not_imp.1 worked
  rw [← knownTargets_eq_nil] at someKnown
  unfold remapOne remapMixin
  rw [← drops.sameName, ← drops.sameMixin]
  apply AlsoReports.orElse
  refine .bindOk read rfl ?_
  obtain ⟨success, still, _⟩ := run_remapPrivateTargets sound mixin.privateTargets
  refine .bindOk success still (.bindLift _ ?_)
  split
  · rename_i noneKnown
    exact absurd noneKnown someKnown
  · exact .lift (alsoReports_remapMembers drops _)

private theorem each_alone (decls : List ClassDecl) :
    Remap.each (remapOne hierarchy) decls = Remap.each (remapOne hierarchy) (decls.map ClassDecl.alone) := by
  induction decls with
  | nil => rfl
  | cons decl rest ih =>
      have same : remapOne hierarchy decl = remapOne hierarchy decl.alone := by
        cases decl
        rfl
      rw [List.map_cons, Remap.each, Remap.each, ih, same]

/-- In a source file without the annotation everything is the same but for the report. -/
theorem alsoReports_each {unit fewer : SourceUnit} {earlier : List ClassDecl} {extra : List Diagnostic}
    (drops : SourceUnit.DropsMark decl member failure unit fewer earlier)
    (also : ∀ other, decl.DropsMark other member failure →
      AlsoReports extra (remapOne hierarchy decl (Remap.each (remapOne hierarchy) earlier table).table)
        (remapOne hierarchy other (Remap.each (remapOne hierarchy) earlier table).table)) :
    AlsoReports extra (Remap.each (remapOne hierarchy) unit.walk table)
      (Remap.each (remapOne hierarchy) fewer.walk table) := by
  cases drops with
  | @intro path before after earlier other whole part drops replaced =>
      obtain ⟨later, isWhole, isPart⟩ := replaced.map_walk drops.sameInner
      have unitWalk : (ClassDecl.walkAll (before ++ whole :: after)).map ClassDecl.alone
          = (ClassDecl.walkAll before ++ earlier).map ClassDecl.alone
            ++ decl.alone :: (later ++ (ClassDecl.walkAll after).map ClassDecl.alone) := by
        simp [ClassDecl.walkAll_append, ClassDecl.walkAll, isWhole]
      have fewerWalk : (ClassDecl.walkAll (before ++ part :: after)).map ClassDecl.alone
          = (ClassDecl.walkAll before ++ earlier).map ClassDecl.alone
            ++ other.alone :: (later ++ (ClassDecl.walkAll after).map ClassDecl.alone) := by
        simp [ClassDecl.walkAll_append, ClassDecl.walkAll, isPart]
      rw [SourceUnit.walk, SourceUnit.walk, each_alone (ClassDecl.walkAll (before ++ whole :: after)),
        each_alone (ClassDecl.walkAll (before ++ part :: after)), unitWalk, fewerWalk]
      apply AlsoReports.eachReplaced
      rw [← each_alone]
      exact also other drops

end Dropped

end Classes

/-- A source file without an annotation that cannot be read gives the same edits and the same table. The
annotation is reported once, unless its class is passed over. -/
theorem remapUnit_of_dropsMark {table : Table} (reachable : table.Reachable) (hierarchy : Hierarchy)
    {unit fewer : SourceUnit} {earlier : List ClassDecl} {decl : ClassDecl} {member : String}
    {failure : Failure} (drops : SourceUnit.DropsMark decl member failure unit fewer earlier) :
    (remapUnit hierarchy table unit).value.1.edits = (remapUnit hierarchy table fewer).value.1.edits
      ∧ (remapUnit hierarchy table unit).value.2 = (remapUnit hierarchy table fewer).value.2
      ∧ (decl.PassedOver hierarchy (Remap.each (remapOne hierarchy) earlier table).table →
        (remapUnit hierarchy table unit).value.1.diagnostics
          = (remapUnit hierarchy table fewer).value.1.diagnostics)
      ∧ (¬decl.PassedOver hierarchy (Remap.each (remapOne hierarchy) earlier table).table →
        ∃ before after, (remapUnit hierarchy table fewer).value.1.diagnostics = before ++ after
          ∧ (remapUnit hierarchy table unit).value.1.diagnostics
            = before ++ .malformedLinkage decl.name (some member) failure.message :: after) := by
  have walked := (@evolving_permits hierarchy earlier table).meets_each
  have sound := (walked table ⟨reachable.sound, .refl⟩).kept.1
  by_cases passed : decl.PassedOver hierarchy (Remap.each (remapOne hierarchy) earlier table).table
  · have also := alsoReports_each drops fun other drops => alsoReports_of_passedOver drops sound passed
    obtain ⟨before, after, fewer, more⟩ := also.diagnostics
    exact ⟨also.edits, also.table, fun _ => more.trans fewer.symm, fun worked => absurd passed worked⟩
  · have also := alsoReports_each drops fun other drops =>
      alsoReports_of_not_passedOver drops sound passed
    exact ⟨also.edits, also.table, fun skipped => absurd skipped passed, fun _ => also.diagnostics⟩

/-! ## A nested mixin with a shadow method that is marked twice -/

def lampTarget : ClassName :=
  ⟨"p/l", by decide +kernel⟩

def lampMixin : ClassName :=
  ⟨"m/House$Lamp", by decide +kernel⟩

/-- The method `g` without parameters and result, with the given annotations. -/
def lampMethod (annotations : List Annotation) : MethodDecl :=
  ⟨⟨"g", by decide +kernel⟩, ⟨[], none⟩, false, annotations⟩

def lampOperations : List Operation :=
  [.createClass lampTarget,
    .mapMethod lampTarget (lampMethod []).signature ⟨"glow", by decide +kernel⟩]

def lampTable : Table :=
  (lampOperations.foldl Operation.apply (.empty .standard)).update lampTarget (ClassEntry.completeWith [] [])

def lampClass (annotations : List Annotation) : ClassDecl :=
  .mk lampMixin [⟨AnnotationName.mixin, ⟨40, 55⟩, [("value", .classLiteral lampTarget)]⟩] []
    [lampMethod annotations] []

/-- The mixin inside of a class that is none. -/
def lampHouse (annotations : List Annotation) : ClassDecl :=
  .mk ⟨"m/House", by decide +kernel⟩ [] [] [] [lampClass annotations]

def lampUnit (annotations : List Annotation) : SourceUnit :=
  ⟨"m/House.java", [lampHouse annotations]⟩

/-- The lead is not a string. -/
def lampUnreadable : Annotation :=
  ⟨AnnotationName.shadow, ⟨60, 67⟩, [("prefix", .int 3)]⟩

def lampFailure : Failure :=
  lampUnreadable.wrongElement "prefix" "a string" (.int 3)

def lampShadow : Annotation :=
  ⟨AnnotationName.shadow, ⟨70, 77⟩, []⟩

/-- The annotation is reported, and the other one gives the method its name. -/
theorem remapUnit_of_dropsMark_lamp :
    lampTable.Reachable
      ∧ SourceUnit.DropsMark (lampClass [lampUnreadable, lampShadow]) "g()V" lampFailure
        (lampUnit [lampUnreadable, lampShadow]) (lampUnit [lampShadow])
        [lampHouse [lampUnreadable, lampShadow]]
      ∧ (remapUnit .empty lampTable (lampUnit [lampUnreadable, lampShadow])).value.1.diagnostics
        = [.malformedLinkage lampMixin (some "g()V") lampFailure.message]
      ∧ ((remapUnit .empty lampTable (lampUnit [lampUnreadable, lampShadow])).value.2.method? lampMixin
          (lampMethod []).signature).map (·.mapped.text) = some "glow" := by
  have reachable : lampTable.Reachable := by
    have completed :=
      ((Table.Reachable.empty .standard).run lampOperations).apply (.complete .empty lampTarget)
    rwa [Operation.apply, Table.complete_of_unknown rfl (by decide +kernel)] at completed
  have drops : SourceUnit.DropsMark (lampClass [lampUnreadable, lampShadow]) "g()V" lampFailure
      (lampUnit [lampUnreadable, lampShadow]) (lampUnit [lampShadow])
      [lampHouse [lampUnreadable, lampShadow]] :=
    @SourceUnit.DropsMark.intro _ _ _ _ [] [] _ _ _ _
      (@ClassDecl.DropsMark.method _ _ [] [lampShadow] [] [] [] (lampMethod []) [] lampUnreadable _ rfl)
      (@ClassDecl.Replaced.nested _ _ _ _ _ _ [] [] _ _ _ .here)
  obtain ⟨_, sameTable, _, reports⟩ := remapUnit_of_dropsMark reachable .empty drops
  have worked : ¬(lampClass [lampUnreadable, lampShadow]).PassedOver .empty
      (Remap.each (remapOne .empty) [lampHouse [lampUnreadable, lampShadow]] lampTable).table := by
    intro passed
    have unknown := passed ⟨[lampTarget], []⟩ rfl lampTarget (by decide +kernel)
    have found : (lampTable.find? lampTarget).isSome = true := by decide +kernel
    exact Option.isSome_iff_ne_none.1 found unknown.1
  obtain ⟨before, after, others, inserted⟩ := reports worked
  have none : (remapUnit .empty lampTable (lampUnit [lampShadow])).value.1.diagnostics = [] := by
    decide +kernel
  obtain ⟨rfl, rfl⟩ := List.append_eq_nil_iff.1 (others.symm.trans none)
  refine ⟨reachable, drops, inserted, ?_⟩
  rw [sameTable]
  decide +kernel

end MixinLink
