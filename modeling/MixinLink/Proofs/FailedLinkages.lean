import MixinLink.Proofs.Inheritance
import MixinLink.Proofs.Isolation
import MixinLink.Proofs.LinkageOutcomes
import MixinLink.Proofs.Undisturbed
import MixinLink.Proofs.Visits

/-!
# Linkages that fail

A linkage that fails has edited nothing and named nothing. What is left of it are copies that look-ups of
fields have added, or an interface that was completed. With a table that remapping can come to, an injection
that can be read does not fail at all, and a class as a whole fails only if its own annotations cannot be
read.

Main exports: `Attempt.FailsLeaving`, `failsLeaving_remapMethodMark`, `value_remapMethodMark_of_injector`,
`failsToRead_of_reported`, `failing_linkages_leave_names`.
-/

namespace MixinLink

open Relation (ReflTransGen)

/-! ## What a failed linkage leaves -/

/-- The table stays among some tables, nothing is edited, and only members are reported. -/
def unedited (kept : Table → Prop) : Contract where
  kept := kept
  edits _ := False
  reports diagnostic := diagnostic.namesMember = true

/-- An attempt that fails has put out no edits, has kept all names that there were, and leaves a table with
a property. -/
def Attempt.FailsLeaving (left : Table → Prop) (attempt : Attempt Unit) (table : Table) : Prop :=
  ∀ failure, (attempt.run table).value = .error failure →
    (attempt.run table).output.edits = [] ∧ table.Undisturbed [] (attempt.run table).table
      ∧ left (attempt.run table).table

section Leaving

variable {table : Table} {hierarchy : Hierarchy} {place : Place}

/-- An attempt that stays among some tables for as long as it may fail leaves one of them. -/
theorem Attempt.MeetsOnFailure.failsLeaving {kept left : Table → Prop} {attempt : Attempt Unit}
    (meets : Attempt.MeetsOnFailure (unedited kept) attempt) (start : kept table)
    (undisturbed : ∀ after, kept after → table.Undisturbed [] after)
    (leaves : ∀ after, kept after → left after) : attempt.FailsLeaving left table := by
  intro failure failed
  obtain ⟨still, edits⟩ := (meets table start).failed failure failed
  exact ⟨List.eq_nil_iff_forall_not_mem.2 edits, undisturbed _ still, leaves _ still⟩

/-- A linkage of a field that fails leaves the table as it was. -/
theorem failsLeaving_remapFieldMark (sound : table.Sound) (field : FieldDecl) (mark : Annotation) :
    (remapFieldMark place field mark).FailsLeaving (· = table) table := by
  have staysSound : ∀ now, now = table → now.Sound := by
    intro now same
    rw [same]
    exact sound
  have meets : Attempt.MeetsOnFailure (unedited (· = table)) (remapFieldMark place field mark) :=
    meetsOnFailure_remapFieldMark (fun _ member => member) staysSound field mark
  apply meets.failsLeaving rfl
  · intro after same
    rw [same]
    exact .refl table
  · exact fun _ same => same

/-- Linkages of methods may look up fields. -/
theorem lookingUp_permitsSearching (sound : table.Sound) :
    (unedited (ReflTransGen LooksUp table)).PermitsSearching hierarchy .inTargets where
  sound _ lookedUp := sound.looksUps lookedUp
  looksUp _ _ _ step lookedUp := lookedUp.tail step
  completes _ _ may := may.elim
  reports _ names := names

/-- A linkage of a method that fails leaves all methods as they were. -/
theorem failsLeaving_remapMethodMark (sound : table.Sound) (method : MethodDecl) (mark : Annotation) :
    (remapMethodMark hierarchy place method mark).FailsLeaving
      (fun after => ∀ owner signature, after.method? owner signature = table.method? owner signature)
      table := by
  have links : Linking hierarchy .inTargets (method.markSites mark)
      (remapMethodMark hierarchy place method mark) :=
    linking_remapMethodMark trivial trivial fun _ => trivial
  apply (links.meetsOnFailure (lookingUp_permitsSearching sound)).failsLeaving .refl
  · intro after lookedUp
    exact .evolves sound (@evolves_of_looksUps hierarchy [] _ _ lookedUp)
  · intro after lookedUp
    exact method?_of_looksUps lookedUp

/-- A soft implementation may complete its interface. -/
theorem completing_permitsSearching (sound : table.Sound) (interface : ClassName) :
    (unedited fun after =>
      after = table ∨ after = (table.complete hierarchy interface).value).PermitsSearching hierarchy
      (.inInterface interface) where
  sound now reached := by
    rcases reached with rfl | rfl
    · exact sound
    · exact sound.complete hierarchy interface
  looksUp may := may.elim
  completes now name isInterface reached := by
    cases isInterface
    rcases reached with rfl | rfl
    · exact .inr rfl
    · exact .inr (Table.complete_of_completed (Table.isCompleted_complete hierarchy interface))
  reports _ names := names

/-- A soft implementation that fails has at most completed its interface. -/
theorem failsLeaving_remapSoftImplementation (sound : table.Sound) (method : MethodDecl)
    (data : InterfaceData) :
    (remapSoftImplementation hierarchy place method data).FailsLeaving
      (fun after => after = table ∨ after = (table.complete hierarchy data.interface).value) table := by
  have links : Linking hierarchy (.inInterface data.interface) []
      (remapSoftImplementation hierarchy place method data) :=
    linking_remapSoftImplementation trivial rfl
  apply (links.meetsOnFailure (completing_permitsSearching sound data.interface)).failsLeaving (.inl rfl)
  · intro after reached
    rcases reached with rfl | rfl
    · exact .refl after
    · exact .complete sound hierarchy data.interface
  · exact fun _ reached => reached

end Leaving

/-! ## Injections that can be read -/

/-- An injector that can be read makes an injection. -/
theorem Linkage.exists_injection {mark : Annotation} {data : InjectData} (method : MethodDecl)
    (isInjector : mark.name ∈ AnnotationName.injectors)
    (read : (InjectData.ofMark mark).run.value = .ok data) :
    ∃ linkage, (Linkage.ofMethod? mark method).run.value = .ok (some linkage)
      ∧ linkage.injection? = some data := by
  have made (make : InjectData → Linkage) :
      (InjectData.ofMark mark >>= fun data => (pure (some (make data)) : Reading _)).run.value
        = .ok (some (make data)) :=
    Reading.value_bind_eq_ok.2 ⟨data, read, rfl⟩
  simp only [AnnotationName.injectors, List.mem_cons, List.not_mem_nil, or_false] at isInjector
  unfold Linkage.ofMethod?
  rcases isInjector with isName | isName | isName | isName
  · rw [isName]
    exact ⟨.inject data, made .inject, rfl⟩
  · rw [isName]
    exact ⟨.redirect data, made .redirect, rfl⟩
  · rw [isName]
    exact ⟨.modifyConstant data, made .modifyConstant, rfl⟩
  · rw [isName]
    exact ⟨.modifyVariable data, made .modifyVariable, rfl⟩

/-- From a sound table, an injection that can be read does not fail. -/
theorem value_remapMethodMark_of_injector {table : Table} {hierarchy : Hierarchy} {place : Place}
    {method : MethodDecl} {mark : Annotation} {data : InjectData} (sound : table.Sound)
    (isInjector : mark.name ∈ AnnotationName.injectors)
    (read : (InjectData.ofMark mark).run.value = .ok data) :
    ((remapMethodMark hierarchy place method mark).run table).value = .ok () := by
  obtain ⟨linkage, reads, injects⟩ := Linkage.exists_injection method isInjector read
  have readBy := (Linkage.readFrom_ofMethod? reads).injection data injects
  have injecting : Injecting hierarchy data.sites (remapInjection hierarchy place data) :=
    injecting_remapInjection readBy
  have meets : (remapInjection hierarchy place data).Meets (reportingClasses []) fun _ => False :=
    injecting.meets (reportingClasses_permits hierarchy [])
  unfold remapMethodMark
  rw [Attempt.read_bind_of_ok reads, Attempt.run_bind_note]
  simp only [remapMethodLinkage_of_injection injects, Remap.log, Attempt.run_bind_note]
  cases outcome : ((remapInjection hierarchy place data).run table).value with
  | ok value => rfl
  | error failure => exact ((meets table sound).value failure outcome).elim

/-! ## Reports about classes -/

/-- What remapping a source file reports about a class as a whole is that its annotations cannot be read. -/
theorem failsToRead_of_reported {table : Table} {hierarchy : Hierarchy} (sound : table.Sound)
    {unit : SourceUnit} {className : ClassName} {message : String}
    (reported : .malformedLinkage className none message
      ∈ (remapUnit hierarchy table unit).value.1.diagnostics) :
    ∃ decl ∈ unit.walk, decl.name = className
      ∧ ∃ failure, decl.FailsToRead failure ∧ failure.message = message := by
  have meets := (reportingClasses_permits hierarchy unit.walk).meets_each
  rcases (meets table sound).allowed.reports _ reported with member | unreadable
  · cases member
  · obtain ⟨decl, declared, failure, fails, same⟩ := unreadable
    cases same
    exact ⟨decl, declared, rfl, failure, fails, rfl⟩

/-- A linkage that fails has edited nothing and named nothing: a field leaves the table as it was, a method
leaves all methods as they were, and a soft implementation has at most completed its interface. An injection
that can be read does not fail, and a class as a whole is reported only if its `@Mixin` or its `@Implements`
cannot be read. -/
theorem failing_linkages_leave_names {table : Table} (reachable : table.Reachable) (hierarchy : Hierarchy) :
    (∀ place field mark, (remapFieldMark place field mark).FailsLeaving (· = table) table)
      ∧ (∀ place method mark, (remapMethodMark hierarchy place method mark).FailsLeaving
        (fun after => ∀ owner signature, after.method? owner signature = table.method? owner signature)
        table)
      ∧ (∀ place method data, (remapSoftImplementation hierarchy place method data).FailsLeaving
        (fun after => after = table ∨ after = (table.complete hierarchy data.interface).value) table)
      ∧ (∀ place method mark data, mark.name ∈ AnnotationName.injectors →
        (InjectData.ofMark mark).run.value = .ok data →
        ((remapMethodMark hierarchy place method mark).run table).value = .ok ())
      ∧ ∀ unit className message,
        .malformedLinkage className none message ∈ (remapUnit hierarchy table unit).value.1.diagnostics →
        ∃ decl ∈ unit.walk, decl.name = className
          ∧ ∃ failure, decl.FailsToRead failure ∧ failure.message = message := by
  have sound := reachable.sound
  refine ⟨?_, ?_, ?_, ?_, ?_⟩
  · intro place field mark
    exact failsLeaving_remapFieldMark sound field mark
  · intro place method mark
    exact failsLeaving_remapMethodMark sound method mark
  · intro place method data
    exact failsLeaving_remapSoftImplementation sound method data
  · intro place method mark data isInjector read
    exact value_remapMethodMark_of_injector sound isInjector read
  · intro unit className message reported
    exact failsToRead_of_reported sound reported

/-! ## A lens with a field whose mapped name suits no method -/

def lensTarget : ClassName :=
  ⟨"o/z", by decide +kernel⟩

def lensMixin : ClassName :=
  ⟨"m/Lens", by decide +kernel⟩

/-- The field `ab`, its type left open. -/
def lensField : FieldSignature :=
  ⟨⟨"ab", by decide +kernel⟩, none⟩

def lensName : FieldName :=
  ⟨"x<y", by decide +kernel⟩

def lensOperations : List Operation :=
  [.createClass lensTarget, .mapField lensTarget lensField lensName]

def lensTable : Table :=
  lensOperations.foldl Operation.apply (.empty .standard)

def lensMark : Annotation :=
  ⟨AnnotationName.accessor, ⟨10, 20⟩, []⟩

def lensType : FieldType :=
  { FieldType.ofClass lensTarget with base := .primitive .int }

/-- The accessor `getAb` of an `int`. -/
def lensMethod : MethodDecl :=
  ⟨⟨"getAb", by decide +kernel⟩, ⟨[], some lensType⟩, false, [lensMark]⟩

def lensPlace : Place :=
  ⟨lensMixin, lensMethod.signature.text, [lensTarget]⟩

def lensLeft : Table :=
  ((remapMethodMark .empty lensPlace lensMethod lensMark).run lensTable).table

/-- The accessor would be named `getX<y`, which is no name of a method. By then, the look-up has copied the
field for its type, and this is all that is left. -/
theorem failing_linkages_leave_names_lens :
    lensTable.Reachable
      ∧ ((remapMethodMark .empty lensPlace lensMethod lensMark).run lensTable).value.isOk = false
      ∧ ((remapMethodMark .empty lensPlace lensMethod lensMark).run lensTable).output.edits = []
      ∧ lensTable.Undisturbed [] lensLeft
      ∧ (∀ owner signature, lensLeft.method? owner signature = lensTable.method? owner signature)
      ∧ (lensLeft.find? lensTarget).map (fun entry => entry.fields.map fun field => field.1.text)
        = some ["ab", "ab:I"] := by
  have reachable : lensTable.Reachable := (Table.Reachable.empty .standard).run lensOperations
  have fails :
      ((remapMethodMark .empty lensPlace lensMethod lensMark).run lensTable).value.isOk = false := by
    decide +kernel
  obtain ⟨failure, failed⟩ : ∃ failure,
      ((remapMethodMark .empty lensPlace lensMethod lensMark).run lensTable).value = .error failure := by
    cases outcome : ((remapMethodMark .empty lensPlace lensMethod lensMark).run lensTable).value with
    | ok _ =>
        rw [outcome] at fails
        cases fails
    | error failure => exact ⟨failure, rfl⟩
  obtain ⟨edits, names, methods⟩ :=
    (failing_linkages_leave_names reachable .empty).2.1 lensPlace lensMethod lensMark failure failed
  exact ⟨reachable, fails, edits, names, methods, by decide +kernel⟩

end MixinLink
