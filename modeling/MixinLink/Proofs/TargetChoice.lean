import MixinLink.Proofs.Reachable
import MixinLink.Proofs.Searches
import MixinLink.Proofs.Visits

/-!
# The choice among the targets of a mixin

A linkage looks its member up in all targets of the mixin. What each target answers can be read off
the table as it was before the linkage, although looking up fields adds entries on the way. The
first result counts, and the targets after it that give another result are reported, one by one; a
linkage makes no other report about its targets.

Main exports: `Query`, `Linkage.queries`, `Query.ChoosesFirst`, `Table.LooksAcross`,
`Table.looksAcross_of_reachable`.
-/

namespace MixinLink

open Relation (ReflTransGen)

variable {α β : Type}

/-! ## What linkages ask for -/

/-- A question that is put to all targets. -/
inductive Query where
  | field (signature : FieldSignature)
  | method (signature : MethodSignature)
  | member (reference : MemberReference)

/-- The questions of a shadow field: for the field that it stands for. -/
def ShadowData.queries (shadow : ShadowData) (field : FieldDecl) : List Query :=
  match FieldName.parse ((shadow.strip? field.name.text).getD field.name.text) with
  | .ok name => [.field ⟨name, some field.type⟩]
  | .error _ => []

/-- The name that an accessor tells, by its explicit target or else by its own name. -/
def AccessorData.told (data : AccessorData) (parse : String → Checked α) (method : MethodDecl) : Option α :=
  match data.target with
  | some literal => (parse literal.value).toOption
  | none => (AccessorName.parse? method.name.text).bind fun accessor => (parse accessor.member).toOption

/-- The questions of an accessor of a field. -/
def AccessorData.fieldQueries (data : AccessorData) (method : MethodDecl) (isGetter : Bool) : List Query :=
  match accessedType method isGetter with
  | .ok type => (data.told FieldName.parse method).toList.map fun name => .field ⟨name, some type⟩
  | .error _ => []

/-- The questions of an injection: for its target methods. -/
def InjectData.queries (data : InjectData) : List Query :=
  data.methods.filterMap fun target => target.parsed.map .member

/-- The questions that a linkage of a method puts to all targets. -/
def Linkage.queries (method : MethodDecl) : Linkage → List Query
  | .shadowField _ => []
  | .shadowMethod shadow =>
    match MethodName.parse ((shadow.strip? method.name.text).getD method.name.text) with
    | .ok name => [.method ⟨name, method.type⟩]
    | .error _ => []
  | .overwrite => [.method method.signature]
  | .getter data => data.fieldQueries method true
  | .setter data => data.fieldQueries method false
  | .proxy data => (data.told MethodName.parse method).toList.map fun name => .method ⟨name, method.type⟩
  | .factory _ => []
  | .inject data => data.queries
  | .redirect data => data.queries
  | .modifyConstant data => data.queries
  | .modifyVariable data => data.queries

/-- Looking something up in all targets from one table comes to what the targets answer at another
table, each on its own. -/
def ChoosesFirst [DecidableEq α] [ToString α] (place : Place) (lookUp : ClassName → Attempt (Resolved α))
    (table now : Table) : Prop :=
  ∃ answer outcome, (∀ target, ((lookUp target).run table).value = .ok (answer target))
    ∧ ((acrossTargets place lookUp).run now).value = .ok outcome
    ∧ FirstOfTargets place answer outcome ((acrossTargets place lookUp).run now).output.diagnostics

namespace Query

/-- The question is decided by what the targets answer at the first table. -/
def ChoosesFirst (place : Place) (table now : Table) : Query → Prop
  | field signature => MixinLink.ChoosesFirst place (lookUpField signature) table now
  | method signature => MixinLink.ChoosesFirst place (lookUpMethod signature) table now
  | member reference => MixinLink.ChoosesFirst place (resolveMember · reference) table now

/-- What is reported when the question is put to all targets. -/
def reports (place : Place) (table : Table) : Query → List Diagnostic
  | field signature => ((acrossTargets place (lookUpField signature)).run table).output.diagnostics
  | method signature => ((acrossTargets place (lookUpMethod signature)).run table).output.diagnostics
  | member reference => ((acrossTargets place (resolveMember · reference)).run table).output.diagnostics

end Query

/-- Look-ups that give the same answers all the way come to what the targets answer at the start. -/
theorem choosesFirst_of_stably [DecidableEq α] [ToString α] {place : Place} {table now : Table}
    {lookUp : ClassName → Attempt (Resolved α)} {answer : ClassName → Resolved α}
    (stably : LooksUpStably (ReflTransGen LooksUp table) lookUp answer)
    (reached : ReflTransGen LooksUp table now) : ChoosesFirst place lookUp table now := by
  obtain ⟨outcome, success, first⟩ := run_acrossTargets place stably reached
  exact ⟨answer, outcome, stably.value table .refl, success, first⟩

/-- Fields that are looked up on the way do not change how a question is decided. -/
theorem Query.choosesFirst {table now : Table} (sound : table.Sound)
    (reached : ReflTransGen LooksUp table now) (place : Place) (query : Query) :
    query.ChoosesFirst place table now := by
  cases query with
  | field signature => exact choosesFirst_of_stably (stably_lookUpField sound signature) reached
  | method signature => exact choosesFirst_of_stably (stably_lookUpMethod table signature) reached
  | member reference =>
      obtain ⟨answer, _, stably⟩ := sound.exists_memberAnswers reference
      exact choosesFirst_of_stably stably reached

/-! ## What linkages report about targets -/

/-- The diagnostic is about targets that give different results. -/
def Diagnostic.isConflict : Diagnostic → Bool
  | conflictingTargets .. => true
  | _ => false

/-- The reports about targets that give different results. -/
def Attempt.conflicts (attempt : Attempt α) (table : Table) : List Diagnostic :=
  (attempt.run table).output.diagnostics.filter Diagnostic.isConflict

/-- Nothing is reported about targets that give different results, whatever the table. -/
def Attempt.Unconflicted (attempt : Attempt α) : Prop :=
  ∀ table, attempt.conflicts table = []

namespace Attempt

/-- What comes after a success reports after it. -/
theorem conflicts_bind_of_ok {first : Attempt α} {rest : α → Attempt β} {table : Table} {value : α}
    (success : (first.run table).value = .ok value) :
    (first >>= rest).conflicts table
      = first.conflicts table ++ (rest value).conflicts (first.run table).table := by
  rw [conflicts, run_bind_of_ok success, Output.diagnostics_append, List.filter_append]
  rfl

/-- What comes after the last report of this kind does not count. -/
theorem conflicts_bind {first : Attempt α} {rest : α → Attempt β} (free : ∀ value, (rest value).Unconflicted)
    (table : Table) : (first >>= rest).conflicts table = first.conflicts table := by
  cases outcome : (first.run table).value with
  | ok value => rw [conflicts_bind_of_ok outcome, free value, List.append_nil]
  | error failure =>
      rw [conflicts, run_bind_of_error outcome, Output.diagnostics_append, Output.diagnostics_empty,
        List.append_nil]
      rfl

/-- Neither does a check before it, if it succeeds. -/
theorem conflicts_check_bind (result : Checked α) (rest : α → Attempt β) (table : Table) :
    (check result >>= rest).conflicts table
      = result.toOption.elim [] fun value => (rest value).conflicts table := by
  cases result with
  | ok value => rfl
  | error failure => rfl

namespace Unconflicted

/-- An attempt that reports nothing at all. -/
theorem quiet {attempt : Attempt α} (silent : ∀ table, (attempt.run table).output.diagnostics = []) :
    attempt.Unconflicted := by
  intro table
  rw [conflicts, silent table]
  rfl

/-- One attempt after the other. -/
theorem bind {first : Attempt α} {rest : α → Attempt β} (start : first.Unconflicted)
    (next : ∀ value, (rest value).Unconflicted) : (first >>= rest).Unconflicted :=
  fun table => (conflicts_bind next table).trans (start table)

/-- Attempts for all items of a list. -/
theorem each {attempt : α → Attempt Unit} (free : ∀ item, (attempt item).Unconflicted) (items : List α) :
    (Attempt.each attempt items).Unconflicted := by
  induction items with
  | nil => exact quiet fun _ => rfl
  | cons item rest ih => exact (free item).bind fun _ => ih

/-- Doing nothing. -/
theorem pure (value : α) : (pure value : Attempt α).Unconflicted :=
  quiet fun _ => rfl

/-- Log entries do not matter. -/
theorem log (level : Level) (text : String) : (liftM (Remap.log level text) : Attempt Unit).Unconflicted :=
  quiet fun _ => rfl

/-- A check reports nothing. -/
theorem check (result : Checked α) : (Attempt.check result).Unconflicted :=
  quiet fun _ => rfl

/-- An edit reports nothing. -/
theorem edit (literal : StringLiteral) (after : String) :
    (liftM (Remap.edit literal after) : Attempt Unit).Unconflicted := by
  refine quiet fun table => ?_
  rw [run_lift, Output.diagnostics_append, Remap.diagnostics_edit]
  rfl

end Unconflicted

end Attempt

/-- All reports about targets are about different results. -/
theorem FirstOfTargets.isConflict [DecidableEq α] [ToString α] {place : Place}
    {answer : ClassName → Resolved α} {outcome : Resolved α} {reports : List Diagnostic}
    (first : FirstOfTargets place answer outcome reports) :
    reports.filter Diagnostic.isConflict = reports := by
  cases first with
  | found =>
      refine List.filter_eq_self.2 fun diagnostic member => ?_
      obtain ⟨target, _, isReport⟩ := List.mem_filterMap.1 member
      unfold conflict? at isReport
      split at isReport
      · split at isReport
        · cases isReport
        · cases isReport
          rfl
      · cases isReport
  | ambiguous => rfl
  | missing => rfl

/-- All reports of looking something up in all targets are about different results. -/
theorem ChoosesFirst.conflicts [DecidableEq α] [ToString α] {place : Place}
    {lookUp : ClassName → Attempt (Resolved α)} {table now : Table}
    (first : ChoosesFirst place lookUp table now) :
    (acrossTargets place lookUp).conflicts now
      = ((acrossTargets place lookUp).run now).output.diagnostics := by
  obtain ⟨answer, outcome, _, _, isFirst⟩ := first
  exact isFirst.isConflict

/-- Looking up on the way changes no report. -/
theorem ChoosesFirst.same_reports [DecidableEq α] [ToString α] {place : Place}
    {lookUp : ClassName → Attempt (Resolved α)} {table now : Table}
    (first : ChoosesFirst place lookUp table table) (later : ChoosesFirst place lookUp table now) :
    ((acrossTargets place lookUp).run now).output.diagnostics
      = ((acrossTargets place lookUp).run table).output.diagnostics := by
  obtain ⟨answer, outcome, answers, _, isFirst⟩ := first
  obtain ⟨other, otherOutcome, otherAnswers, _, isLater⟩ := later
  have same : other = answer := by
    funext target
    exact Except.ok.inj ((otherAnswers target).symm.trans (answers target))
  rw [same] at isLater
  exact (isLater.unique isFirst).2

section Linkages

variable {place : Place} {table : Table}

/-- Naming a field reports nothing. -/
theorem unconflicted_nameField (className : ClassName) (field : FieldDecl) (mapped : String) :
    (nameField className field mapped).Unconflicted :=
  (Attempt.Unconflicted.check _).bind fun _ => (Attempt.Unconflicted.log _ _).bind fun _ =>
    .quiet fun _ => rfl

/-- Naming a method reports nothing. -/
theorem unconflicted_nameMethod (className : ClassName) (method : MethodDecl) (mapped : String) :
    (nameMethod className method mapped).Unconflicted :=
  (Attempt.Unconflicted.check _).bind fun _ => (Attempt.Unconflicted.log _ _).bind fun _ =>
    .quiet fun _ => rfl

/-- What an accessor does once its member is found reports nothing. -/
theorem unconflicted_followMember (method : MethodDecl) (use : AccessorUse) (mapped : String) :
    (followMember place method use mapped).Unconflicted := by
  cases use with
  | explicit literal => exact .edit literal mapped
  | inflected accessor => exact unconflicted_nameMethod _ _ _

/-- A search reports what its look-ups report, if what is found is used without reports. -/
theorem ChoosesFirst.conflicts_whenFound [DecidableEq α] [ToString α]
    {lookUp : ClassName → Attempt (Resolved α)} {now : Table} (first : ChoosesFirst place lookUp table now)
    {use : α → Attempt Unit} (uses : ∀ value, (use value).Unconflicted) (missing : String) :
    (whenFound (acrossTargets place lookUp) missing use).conflicts now
      = ((acrossTargets place lookUp).run now).output.diagnostics := by
  refine (Attempt.conflicts_bind (fun resolved => ?_) now).trans first.conflicts
  cases resolved with
  | found value => exact uses value
  | missing => exact .log _ _
  | ambiguous candidates => exact .log _ _

/-- A search for a field reports what its question reports. -/
theorem conflicts_whenField (sound : table.Sound) (signature : FieldSignature) (missing : String)
    {use : FieldName → Attempt Unit} (uses : ∀ value, (use value).Unconflicted) :
    (whenFound (findField place signature) missing use).conflicts table
      = (Query.field signature).reports place table :=
  (choosesFirst_of_stably (stably_lookUpField sound signature) .refl).conflicts_whenFound uses missing

/-- A search for a method reports what its question reports. -/
theorem conflicts_whenMethod (signature : MethodSignature) (missing : String)
    {use : MethodName → Attempt Unit} (uses : ∀ value, (use value).Unconflicted) :
    (whenFound (findMethod place signature) missing use).conflicts table
      = (Query.method signature).reports place table :=
  (choosesFirst_of_stably (stably_lookUpMethod table signature) .refl).conflicts_whenFound uses missing

/-- An accessor reports what is reported about the member that it tells. -/
theorem conflicts_accessedMember_bind {parse : String → Checked α} {method : MethodDecl}
    {data : AccessorData} {untold : String} {rest : Option (α × AccessorUse) → Attempt Unit}
    (nothing : rest none = pure ()) {reports : α → List Diagnostic}
    (found : ∀ name use, (rest (some (name, use))).conflicts table = reports name) :
    (accessedMember parse method data untold >>= rest).conflicts table
      = (data.told parse method).toList.flatMap reports := by
  unfold accessedMember AccessorData.told
  cases data.target with
  | some literal =>
      dsimp only
      rw [bind_assoc, explicitName_bind, Attempt.conflicts_bind_of_ok (by rw [Attempt.run_lift]),
        parsed_parseLiteral]
      cases (parse literal.value).toOption with
      | none =>
          rw [pure_bind, nothing]
          rfl
      | some name =>
          rw [pure_bind, Option.toList_some, List.flatMap_singleton]
          exact found name _
  | none =>
      dsimp only
      cases AccessorName.parse? method.name.text with
      | none =>
          rw [bind_assoc, Attempt.conflicts_bind_of_ok (by rw [Attempt.run_lift]), pure_bind, nothing]
          rfl
      | some accessor =>
          rw [bind_assoc, Attempt.conflicts_check_bind, Option.bind_some]
          cases (parse accessor.member).toOption with
          | none => rfl
          | some name =>
              rw [Option.elim_some, pure_bind, Option.toList_some, List.flatMap_singleton]
              exact found name _

/-- A literal that names a class is edited without reports. -/
theorem unconflicted_remapClassLiteral (literal : StringLiteral) (reference : ClassReference) :
    (remapClassLiteral literal reference).Unconflicted := by
  refine Attempt.Unconflicted.bind (.quiet fun _ => rfl) fun now => ?_
  refine Attempt.Unconflicted.bind (.check _) fun mapped => ?_
  cases mapped with
  | none => exact .pure ()
  | some mapped => exact .edit _ _

/-- A factory reports nothing. -/
theorem unconflicted_remapFactory (data : AccessorData) : (remapFactory data).Unconflicted := by
  unfold remapFactory
  cases data.target with
  | none => exact .pure ()
  | some literal =>
      dsimp only
      split
      · exact .pure ()
      · refine Attempt.Unconflicted.bind (.quiet fun _ => rfl) fun reference => ?_
        cases reference with
        | none => exact .pure ()
        | some reference => exact unconflicted_remapClassLiteral literal reference

/-- An ambiguity is no report about different results. -/
theorem unconflicted_reportAmbiguous (literal : StringLiteral) (candidates : List String) :
    (liftM (reportAmbiguous place literal candidates) : Attempt Unit).Unconflicted :=
  fun _ => rfl

/-- An injection point at a member asks one class only. -/
theorem unconflicted_remapPointMember (point : PointData) (literal : StringLiteral) (owner : ClassName)
    (member : MemberReference) : (remapPointMember place point literal owner member).Unconflicted := by
  have quiet : (resolveMember owner member).Unconflicted := by
    refine .quiet fun now => ?_
    rw [(run_resolveMember owner member now).1]
    rfl
  refine quiet.bind fun resolved => ?_
  cases resolved with
  | found image =>
      refine Attempt.Unconflicted.bind (.quiet fun _ => rfl) fun now => ?_
      exact Attempt.Unconflicted.bind (.check _) fun mapped => .edit _ _
  | ambiguous candidates => exact unconflicted_reportAmbiguous literal candidates
  | missing => exact .log _ _

/-- An injection point makes no report about different results. -/
theorem unconflicted_remapPoint (hierarchy : Hierarchy) (point : PointData) :
    (remapPoint hierarchy place point).Unconflicted := by
  unfold remapPoint
  cases point.target with
  | none => exact .pure ()
  | some target =>
      dsimp only
      rcases target.parsed with _ | reference | ⟨owner, member⟩
      · exact .pure ()
      · exact unconflicted_remapClassLiteral target.literal reference
      · have quiet : (liftM (resolveClass hierarchy owner) : Attempt Bool).Unconflicted := by
          refine .quiet fun now => ?_
          rw [Attempt.run_lift, output_resolveClass]
          rfl
        refine quiet.bind fun known => ?_
        cases known with
        | false => exact .log _ _
        | true => exact unconflicted_remapPointMember point target.literal owner member

/-- From a sound table a target method of an injection does not fail, and looks up fields at most. -/
theorem run_remapTargetMethod (sound : table.Sound) (place : Place)
    (target : ParsedLiteral MemberReference) :
    ((remapTargetMethod place target).run table).value = .ok ()
      ∧ ReflTransGen LooksUp table ((remapTargetMethod place target).run table).table := by
  unfold remapTargetMethod
  cases target.parsed with
  | none => exact ⟨rfl, .refl⟩
  | some member =>
      obtain ⟨answer, _, stably⟩ := sound.exists_memberAnswers member
      obtain ⟨outcome, success, _⟩ := run_acrossTargets place stably .refl
      obtain ⟨reached, _⟩ := stays_acrossTargets place stably .refl
      dsimp only
      rw [Attempt.run_bind_of_ok success]
      cases outcome with
      | missing => exact ⟨rfl, reached⟩
      | ambiguous candidates => exact ⟨rfl, reached⟩
      | found image =>
          rw [Attempt.run_lift, Remap.table_edit]
          exact ⟨rfl, reached⟩

/-- Target methods of an injection look up fields at most. -/
theorem looksUps_of_comesTo {targets : List (ParsedLiteral MemberReference)}
    {target : ParsedLiteral MemberReference} {now : Table} (sound : table.Sound)
    (comes : Attempt.ComesTo (remapTargetMethod place) targets table target now) :
    ReflTransGen LooksUp table now := by
  induction targets generalizing table with
  | nil => exact absurd comes.mem List.not_mem_nil
  | cons first rest ih =>
      rcases Attempt.ComesTo.cons_iff.1 comes with ⟨_, rfl⟩ | ⟨_, later⟩
      · exact .refl
      · have looked := (run_remapTargetMethod sound place first).2
        exact looked.trans (ih (sound.looksUps looked) later)

variable {now : Table} (sound : table.Sound)

include sound

/-- A shadow field reports what its question reports. -/
theorem conflicts_remapShadowField (field : FieldDecl) (shadow : ShadowData) :
    (remapShadowField place field shadow).conflicts table
      = (shadow.queries field).flatMap (Query.reports place table) := by
  unfold remapShadowField ShadowData.queries
  dsimp only
  rw [Attempt.conflicts_check_bind]
  cases FieldName.parse ((shadow.strip? field.name.text).getD field.name.text) with
  | error failure => rfl
  | ok name =>
      rw [List.flatMap_singleton]
      exact conflicts_whenField sound _ _ fun _ => unconflicted_nameField _ _ _

omit sound in
/-- A shadow method reports what its question reports. -/
theorem conflicts_remapShadowMethod (method : MethodDecl) (shadow : ShadowData) :
    (remapShadowMethod place method shadow).conflicts table
      = ((Linkage.shadowMethod shadow).queries method).flatMap (Query.reports place table) := by
  unfold remapShadowMethod Linkage.queries
  dsimp only
  rw [Attempt.conflicts_check_bind]
  cases MethodName.parse ((shadow.strip? method.name.text).getD method.name.text) with
  | error failure => rfl
  | ok name =>
      rw [List.flatMap_singleton]
      exact conflicts_whenMethod _ _ fun _ => unconflicted_nameMethod _ _ _

/-- An accessor of a field reports what its question reports. -/
theorem conflicts_remapFieldAccessor (method : MethodDecl) (data : AccessorData) (isGetter : Bool) :
    (remapFieldAccessor place method data isGetter).conflicts table
      = (data.fieldQueries method isGetter).flatMap (Query.reports place table) := by
  unfold remapFieldAccessor AccessorData.fieldQueries
  rw [Attempt.conflicts_check_bind]
  cases accessedType method isGetter with
  | error failure => rfl
  | ok type =>
      dsimp only [Except.toOption, Option.elim]
      rw [List.flatMap_map]
      exact conflicts_accessedMember_bind rfl fun name use =>
        conflicts_whenField sound _ _ fun mapped => unconflicted_followMember method use mapped.text

omit sound in
/-- An accessor that calls a method reports what its question reports. -/
theorem conflicts_remapProxy (method : MethodDecl) (data : AccessorData) :
    (remapProxy place method data).conflicts table
      = ((Linkage.proxy data).queries method).flatMap (Query.reports place table) := by
  have asked : (Linkage.proxy data).queries method
      = (data.told MethodName.parse method).toList.map fun name => .method ⟨name, method.type⟩ := rfl
  rw [asked, List.flatMap_map]
  exact conflicts_accessedMember_bind rfl fun name use =>
    conflicts_whenMethod _ _ fun mapped => unconflicted_followMember method use mapped.text

/-- A target method of an injection reports what it would report at the table before the injection. -/
theorem conflicts_remapTargetMethod (reached : ReflTransGen LooksUp table now)
    (target : ParsedLiteral MemberReference) :
    (remapTargetMethod place target).conflicts now
      = (target.parsed.map Query.member).toList.flatMap (Query.reports place table) := by
  unfold remapTargetMethod
  cases target.parsed with
  | none => rfl
  | some member =>
      have first : ChoosesFirst place (resolveMember · member) table table :=
        Query.choosesFirst sound .refl place (.member member)
      have later : ChoosesFirst place (resolveMember · member) table now :=
        Query.choosesFirst sound reached place (.member member)
      rw [Option.map_some, Option.toList_some, List.flatMap_singleton]
      refine (Attempt.conflicts_bind (fun resolved => ?_) now).trans
        (later.conflicts.trans (first.same_reports later))
      cases resolved with
      | found image => exact .edit _ _
      | missing => exact .log _ _
      | ambiguous candidates => exact unconflicted_reportAmbiguous target.literal candidates

/-- The target methods of an injection report one after the other, each as at the table before them all. -/
theorem conflicts_targetMethods (reached : ReflTransGen LooksUp table now)
    (targets : List (ParsedLiteral MemberReference)) :
    (Attempt.each (remapTargetMethod place) targets).conflicts now
      = (targets.filterMap fun target => target.parsed.map Query.member).flatMap
        (Query.reports place table) := by
  induction targets generalizing now with
  | nil => rfl
  | cons target rest ih =>
      obtain ⟨success, looked⟩ := run_remapTargetMethod (sound.looksUps reached) place target
      rw [Attempt.each, Attempt.conflicts_bind_of_ok success, ih (reached.trans looked),
        conflicts_remapTargetMethod sound reached]
      cases isParsed : target.parsed with
      | none => simp [isParsed]
      | some member => simp [isParsed]

/-- An injection reports what its questions report. -/
theorem conflicts_remapInjection (hierarchy : Hierarchy) (data : InjectData) :
    (remapInjection hierarchy place data).conflicts table
      = data.queries.flatMap (Query.reports place table) := by
  have points : (Attempt.each (remapPoint hierarchy place) data.allPoints).Unconflicted :=
    .each (unconflicted_remapPoint hierarchy) data.allPoints
  rw [remapInjection, Attempt.conflicts_bind fun _ => points, conflicts_targetMethods sound .refl,
    InjectData.queries]

/-- A linkage of a method reports what its questions report, put to the table before the linkage. -/
theorem conflicts_remapMethodLinkage (hierarchy : Hierarchy) (method : MethodDecl) (linkage : Linkage) :
    (remapMethodLinkage hierarchy place method linkage).conflicts table
      = (linkage.queries method).flatMap (Query.reports place table) := by
  cases linkage with
  | shadowField shadow => rfl
  | shadowMethod shadow => exact conflicts_remapShadowMethod method shadow
  | overwrite =>
      change _ = [Query.method method.signature].flatMap (Query.reports place table)
      rw [List.flatMap_singleton]
      exact conflicts_whenMethod _ _ fun _ => unconflicted_nameMethod _ _ _
  | getter data => exact conflicts_remapFieldAccessor sound method data true
  | setter data => exact conflicts_remapFieldAccessor sound method data false
  | proxy data => exact conflicts_remapProxy method data
  | factory data => exact unconflicted_remapFactory data table
  | inject data => exact conflicts_remapInjection sound hierarchy data
  | redirect data => exact conflicts_remapInjection sound hierarchy data
  | modifyConstant data => exact conflicts_remapInjection sound hierarchy data
  | modifyVariable data => exact conflicts_remapInjection sound hierarchy data

end Linkages

/-! ## All linkages -/

/-- Linkages are decided by what the targets answer before them. -/
structure Table.LooksAcross (table : Table) (place : Place) : Prop where
  /-- A question comes to the first result among the answers of the targets, else to the first
  ambiguity, else to nothing, and the later targets with another result are reported. -/
  outcomes : ∀ query : Query, query.ChoosesFirst place table table
  /-- So does the question for a target method of an injection, after the target methods before it. -/
  injections : ∀ targets target member now,
    Attempt.ComesTo (remapTargetMethod place) targets table target now →
    target.parsed = some member → (Query.member member).ChoosesFirst place table now
  /-- A linkage makes no other report about different results than those of its questions. -/
  fieldReports : ∀ field shadow, (remapShadowField place field shadow).conflicts table
    = (shadow.queries field).flatMap (Query.reports place table)
  methodReports : ∀ hierarchy method linkage,
    (remapMethodLinkage hierarchy place method linkage).conflicts table
    = (linkage.queries method).flatMap (Query.reports place table)
  /-- A bare name gives a result if there are methods of that name and all of them have one mapped name. -/
  bareFound : ∀ owner name image,
    ((resolveMember owner (.bare name)).run table).value = .ok (.found image)
      ↔ ∃ entry mapped, table.find? owner = some entry ∧ image = .bare mapped
        ∧ (∃ method ∈ entry.methods, method.1.name = name)
        ∧ ∀ method ∈ entry.methods, method.1.name = name → method.2.mapped = mapped
  /-- A bare name is ambiguous if two methods of that name have different mapped names. -/
  bareAmbiguous : ∀ owner name,
    (∃ candidates, ((resolveMember owner (.bare name)).run table).value = .ok (.ambiguous candidates))
      ↔ ∃ entry, table.find? owner = some entry ∧ ∃ first ∈ entry.methods, ∃ second ∈ entry.methods,
        first.1.name = name ∧ second.1.name = name ∧ first.2.mapped ≠ second.2.mapped

/-- From a reachable table, linkages are decided by what the targets answer before them. -/
theorem Table.looksAcross_of_reachable {table : Table} (reachable : table.Reachable) (place : Place) :
    table.LooksAcross place where
  outcomes query := query.choosesFirst reachable.sound .refl place
  injections targets target member now comes _ :=
    Query.choosesFirst reachable.sound (looksUps_of_comesTo reachable.sound comes) place (.member member)
  fieldReports field shadow := conflicts_remapShadowField reachable.sound field shadow
  methodReports hierarchy method linkage :=
    conflicts_remapMethodLinkage reachable.sound hierarchy method linkage
  bareFound owner name image := by
    rw [value_resolveMember reachable.sound, Table.memberAnswer]
    cases found : table.find? owner with
    | none => simp
    | some entry =>
        simp [resolveBare_eq_found (reachable.sound.soundAt found).members.methods]
  bareAmbiguous owner name := by
    rw [value_resolveMember reachable.sound, Table.memberAnswer]
    cases found : table.find? owner with
    | none => simp
    | some entry =>
        simpa using resolveBare_eq_ambiguous (reachable.sound.soundAt found).members.methods

/-- The overloads of `run` in the first target have different mapped names, so the second one
decides; the third one differs from it. -/
theorem Table.looksAcross_ambiguous_first :
    ∃ (table : Table) (place : Place) (run tick : MethodName), table.Reachable ∧ table.LooksAcross place
      ∧ ((acrossTargets place (resolveMember · (.bare run))).run table).value = .ok (.found (.bare tick))
      ∧ ((Query.member (.bare run)).reports place table).map Diagnostic.text
        = ["conflicting targets for net/example/Clock.hook()V: \"tick\" from e, but \"tock\" from f"] := by
  let mixin : ClassName := ⟨"net/example/Clock", by decide +kernel⟩
  let ambiguous : ClassName := ⟨"d", by decide +kernel⟩
  let chosen : ClassName := ⟨"e", by decide +kernel⟩
  let other : ClassName := ⟨"f", by decide +kernel⟩
  let run : MethodName := ⟨"run", by decide +kernel⟩
  let tick : MethodName := ⟨"tick", by decide +kernel⟩
  let tock : MethodName := ⟨"tock", by decide +kernel⟩
  let plain : MethodSignature := ⟨run, ⟨[], none⟩⟩
  let overload : MethodSignature := ⟨run, ⟨[FieldType.ofClass chosen], none⟩⟩
  let operations : List Operation := [.mapMethod ambiguous plain tick, .mapMethod ambiguous overload tock,
    .mapMethod chosen plain tick, .mapMethod chosen overload tick, .mapMethod other plain tock]
  let table := operations.foldl Operation.apply (.empty .standard)
  let place : Place := ⟨mixin, "hook()V", [ambiguous, chosen, other]⟩
  have reachable : table.Reachable := (Reachable.empty .standard).run operations
  exact ⟨table, place, run, tick, reachable, looksAcross_of_reachable reachable place, by decide +kernel,
    by decide +kernel⟩

end MixinLink
