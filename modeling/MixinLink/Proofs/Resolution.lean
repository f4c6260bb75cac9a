import MixinLink.Proofs.Changes
import MixinLink.Proofs.ClassMapping
import MixinLink.Proofs.Runs

/-!
# What looking members up answers

Looking up a member of a class adds entries to the table but changes no later answer. So the answers for
all targets of a place are those that the table gives at the start, and the first result among them is
chosen.

Main exports: `resolveBare_eq_found`, `resolveBare_eq_ambiguous`, `Table.memberAnswer`,
`value_resolveMember`, `memberAnswer_looksUp`, `LooksUpStably`, `FirstOfTargets`,
`run_acrossTargets`, `found_acrossTargets`.
-/

namespace MixinLink

open Relation (ReflTransGen)

/-! ## Answers of one class -/

/-- The methods of a name, as long as they are stored under their own signatures. -/
theorem ClassEntry.mem_methodsNamed {entry : ClassEntry} (keyed : entry.MethodsKeyed) {name : MethodName}
    {mapping : MethodMapping} :
    mapping ∈ entry.methodsNamed name
      ↔ (mapping.signature, mapping) ∈ entry.methods ∧ mapping.signature.name = name := by
  simp only [methodsNamed, methodMappings, List.mem_filter, List.mem_map, decide_eq_true_eq]
  constructor
  · rintro ⟨⟨method, member, rfl⟩, named⟩
    have isKey : method.2.signature = method.1 := keyed method member
    exact ⟨isKey ▸ member, named⟩
  · rintro ⟨member, named⟩
    exact ⟨⟨_, member, rfl⟩, named⟩

private theorem mem_methodsNamed_of_mem {entry : ClassEntry} (keyed : entry.MethodsKeyed) {name : MethodName}
    {method : MethodSignature × MethodMapping} (member : method ∈ entry.methods)
    (named : method.1.name = name) :
    method.2 ∈ entry.methodsNamed name := by
  have isKey : method.2.signature = method.1 := keyed method member
  exact (ClassEntry.mem_methodsNamed keyed).2 ⟨isKey ▸ member, isKey ▸ named⟩

/-- A bare name stands for a method if all methods of that name have the same mapped name. -/
theorem resolveBare_eq_found {entry : ClassEntry} (keyed : entry.MethodsKeyed) {name : MethodName}
    {image : MemberReference} :
    resolveBare entry name = .found image
      ↔ ∃ mapped, image = .bare mapped
        ∧ (∃ method ∈ entry.methods, method.1.name = name)
        ∧ ∀ method ∈ entry.methods, method.1.name = name → method.2.mapped = mapped := by
  have named : ∀ mapping, mapping ∈ entry.methodsNamed name
      ↔ (mapping.signature, mapping) ∈ entry.methods ∧ mapping.signature.name = name :=
    fun _ => ClassEntry.mem_methodsNamed keyed
  have listed : ∀ method ∈ entry.methods, method.1.name = name → method.2 ∈ entry.methodsNamed name :=
    fun _ => mem_methodsNamed_of_mem keyed
  unfold resolveBare
  cases isNamed : entry.methodsNamed name with
  | nil =>
      constructor
      · intro found
        cases found
      · rintro ⟨_, _, ⟨method, member, sameName⟩, _⟩
        have isListed := listed method member sameName
        rw [isNamed] at isListed
        cases isListed
  | cons first others =>
      rw [isNamed] at named listed
      have firstNamed := (named first).1 List.mem_cons_self
      constructor
      · intro found
        simp only at found
        split at found
        · rename_i allSame
          cases found
          refine ⟨first.mapped, rfl, ⟨_, firstNamed⟩, fun method member sameName => ?_⟩
          rcases List.mem_cons.1 (listed method member sameName) with isFirst | inOthers
          · rw [isFirst]
          · simpa using List.all_eq_true.1 allSame _ inOthers
        · cases found
      · rintro ⟨mapped, rfl, _, agree⟩
        have agreed : ∀ mapping ∈ first :: others, mapping.mapped = mapped := fun mapping isListed =>
          agree _ ((named mapping).1 isListed).1 ((named mapping).1 isListed).2
        have allSame : others.all (·.mapped = first.mapped) = true := by
          rw [List.all_eq_true]
          intro mapping inOthers
          have mappedOther := agreed mapping (List.mem_cons_of_mem _ inOthers)
          simp [mappedOther, agreed first List.mem_cons_self]
        simp only [allSame, if_true]
        rw [agreed first List.mem_cons_self]

/-- A bare name is ambiguous if two methods of that name have different mapped names. -/
theorem resolveBare_eq_ambiguous {entry : ClassEntry} (keyed : entry.MethodsKeyed) {name : MethodName} :
    (∃ candidates, resolveBare entry name = .ambiguous candidates)
      ↔ ∃ first ∈ entry.methods, ∃ second ∈ entry.methods,
        first.1.name = name ∧ second.1.name = name ∧ first.2.mapped ≠ second.2.mapped := by
  constructor
  · intro isAmbiguous
    obtain ⟨candidates, isAmbiguous⟩ := isAmbiguous
    unfold resolveBare at isAmbiguous
    split at isAmbiguous
    · cases isAmbiguous
    · rename_i first others listed
      split at isAmbiguous
      · cases isAmbiguous
      · rename_i differ
        simp only [Bool.not_eq_true, List.all_eq_false, decide_eq_true_eq] at differ
        obtain ⟨second, isOther, apart⟩ := differ
        have isFirst : first ∈ entry.methodsNamed name := by rw [listed]; exact List.mem_cons_self
        have isSecond : second ∈ entry.methodsNamed name := by
          rw [listed]
          exact List.mem_cons_of_mem _ isOther
        obtain ⟨firstStored, firstNamed⟩ := (ClassEntry.mem_methodsNamed keyed).1 isFirst
        obtain ⟨secondStored, secondNamed⟩ := (ClassEntry.mem_methodsNamed keyed).1 isSecond
        exact ⟨_, secondStored, _, firstStored, secondNamed, firstNamed, apart⟩
  · intro differing
    obtain ⟨first, isFirst, second, isSecond, firstNamed, secondNamed, apart⟩ := differing
    cases outcome : resolveBare entry name with
    | ambiguous candidates => exact ⟨candidates, rfl⟩
    | found image =>
        obtain ⟨mapped, _, _, agree⟩ := (resolveBare_eq_found keyed).1 outcome
        exact absurd ((agree first isFirst firstNamed).trans (agree second isSecond secondNamed).symm) apart
    | missing =>
        have listed := mem_methodsNamed_of_mem keyed isFirst firstNamed
        unfold resolveBare at outcome
        split at outcome
        · rename_i noMethods
          rw [noMethods] at listed
          cases listed
        · split at outcome <;> cases outcome

/-- What looking a member up in a class answers. -/
def Table.memberAnswer (table : Table) (owner : ClassName) :
    MemberReference → Checked (Resolved MemberReference)
  | .bare name =>
    match table.find? owner with
    | none => .ok .missing
    | some entry => .ok (resolveBare entry name)
  | .method signature =>
    match table.method? owner signature with
    | none => .ok .missing
    | some mapping =>
      (fun type => .found (.method ⟨mapping.mapped, type⟩)) <$> table.mapMethodType signature.type
  | .field name type =>
    match (table.find? owner).bind (·.typedField? name type) with
    | none => .ok .missing
    | some mapped => (fun type => .found (.field mapped type)) <$> table.mapFieldType type

namespace Table

variable (table : Table) (owner : ClassName) (signature : FieldSignature)

/-- Looking up a field changes no mapped class. -/
theorem mapClass_resolveField (name : ClassName) :
    (table.resolveField owner signature).2.mapClass name = table.mapClass name := by
  unfold resolveField
  split
  · rfl
  · refine mapClass_update (fun entry => ?_) name
    rcases entry.resolveField_adds signature with same | ⟨_, _, added⟩
    · rw [same]
    · rw [added]

/-- Looking up a field changes no method. -/
theorem method?_resolveField (other : ClassName) (method : MethodSignature) :
    (table.resolveField owner signature).2.method? other method = table.method? other method := by
  rw [method?, method?, find?_resolveField]
  cases table.find? other with
  | none => rfl
  | some entry =>
      simp only [Option.map_some, Option.bind_some, ClassEntry.method?]
      split
      · rw [ClassEntry.methods_resolveField]
      · rfl

/-- Looking up a field changes no answer about a field with its type. -/
theorem typedField?_resolveField (other : ClassName) (name : FieldName) (type : FieldType) :
    ((table.resolveField owner signature).2.find? other).bind (·.typedField? name type)
      = (table.find? other).bind (·.typedField? name type) := by
  rw [find?_resolveField]
  cases table.find? other with
  | none => rfl
  | some entry =>
      simp only [Option.map_some, Option.bind_some]
      split
      · exact entry.typedField?_resolveField signature name type
      · rfl

end Table

/-- Looking up a field changes no answer about members. -/
theorem memberAnswer_looksUp {before after : Table} (step : LooksUp before after) (owner : ClassName)
    (member : MemberReference) : after.memberAnswer owner member = before.memberAnswer owner member := by
  obtain ⟨looked, signature, rfl⟩ := step
  have sameClass := before.mapClass_resolveField looked signature
  cases member with
  | bare name =>
      simp only [Table.memberAnswer, Table.find?_resolveField]
      cases before.find? owner with
      | none => rfl
      | some entry =>
          have sameNamed : (if owner = looked then (entry.resolveField signature).2 else entry).methodsNamed
              name = entry.methodsNamed name := by
            split
            · rw [ClassEntry.methodsNamed, ClassEntry.methodMappings, ClassEntry.methods_resolveField]
              rfl
            · rfl
          simp only [Option.map_some, resolveBare, sameNamed]
  | method method =>
      simp only [Table.memberAnswer, Table.method?_resolveField, Table.mapMethodType_congr sameClass]
  | field name type =>
      simp only [Table.memberAnswer, Table.typedField?_resolveField, Table.mapFieldType_congr sameClass]

/-- Looking up a field with its type answers for that type only. -/
theorem run_resolveTypedField {table : Table} (sound : table.Sound) (owner : ClassName) (name : FieldName)
    (type : FieldType) :
    (resolveTypedField owner name type table).value
        = (table.find? owner).bind (·.typedField? name type)
      ∧ (resolveTypedField owner name type table).table
        = (table.resolveField owner ⟨name, some type⟩).2 := by
  have value : (resolveTypedField owner name type table).value
      = ((table.resolveField owner ⟨name, some type⟩).1.filter fun mapping =>
          mapping.signature.type = none || mapping.signature.type = some type).map
            FieldMapping.mapped := rfl
  refine ⟨?_, rfl⟩
  rw [value]
  unfold Table.resolveField
  cases present : table.find? owner with
  | none => rfl
  | some entry => exact ClassEntry.resolveField_typed (sound.soundAt present).members.fields name type

/-- Resolving a member gives the answer of the table as it was before. -/
theorem value_resolveMember {table : Table} (sound : table.Sound) (owner : ClassName)
    (member : MemberReference) :
    ((resolveMember owner member).run table).value = table.memberAnswer owner member := by
  cases member with
  | bare name =>
      simp only [resolveMember, Table.memberAnswer]
      rw [Attempt.run_bind_table]
      cases table.find? owner with
      | none => rfl
      | some entry => rfl
  | method signature =>
      simp only [resolveMember, Table.memberAnswer]
      rw [Attempt.run_bind_table]
      cases table.method? owner signature with
      | none => rfl
      | some mapping =>
          cases isType : table.mapMethodType signature.type with
          | error failure => rfl
          | ok type => rfl
  | field name type =>
      obtain ⟨value, after⟩ := run_resolveTypedField sound owner name type
      have sameType := Table.mapFieldType_congr
        (table.mapClass_resolveField owner ⟨name, some type⟩) type
      simp only [resolveMember, Table.memberAnswer]
      rw [Attempt.run_bind_of_ok (by rw [Attempt.run_lift])]
      simp only [Attempt.run_lift, value, after]
      cases (table.find? owner).bind (·.typedField? name type) with
      | none => rfl
      | some mapped =>
          dsimp only
          rw [Attempt.run_bind_table, sameType]
          cases table.mapFieldType type with
          | error failure => rfl
          | ok type => rfl

/-- A sound table answers every question. -/
theorem Table.Sound.exists_memberAnswer {table : Table} (sound : table.Sound) (owner : ClassName)
    (member : MemberReference) : ∃ resolved, table.memberAnswer owner member = .ok resolved := by
  cases member with
  | bare name =>
      simp only [Table.memberAnswer]
      split
      · exact ⟨_, rfl⟩
      · exact ⟨_, rfl⟩
  | method signature =>
      obtain ⟨type, success⟩ := sound.exists_mapMethodType signature.type
      simp only [Table.memberAnswer, success]
      split
      · exact ⟨_, rfl⟩
      · exact ⟨_, rfl⟩
  | field name type =>
      obtain ⟨mapped, success⟩ := sound.exists_mapFieldType type
      simp only [Table.memberAnswer, success]
      split
      · exact ⟨_, rfl⟩
      · exact ⟨_, rfl⟩

/-- Resolving a member puts nothing out, and looks up at most one field. -/
theorem run_resolveMember (owner : ClassName) (member : MemberReference) (table : Table) :
    ((resolveMember owner member).run table).output = .empty
      ∧ ReflTransGen LooksUp table ((resolveMember owner member).run table).table := by
  cases member with
  | bare name =>
      simp only [resolveMember]
      rw [Attempt.run_bind_table]
      cases table.find? owner with
      | none => exact ⟨rfl, .refl⟩
      | some entry => exact ⟨rfl, .refl⟩
  | method signature =>
      simp only [resolveMember]
      rw [Attempt.run_bind_table]
      cases table.method? owner signature with
      | none => exact ⟨rfl, .refl⟩
      | some mapping =>
          cases isType : table.mapMethodType signature.type with
          | error failure => exact ⟨rfl, .refl⟩
          | ok type => exact ⟨rfl, .refl⟩
  | field name type =>
      have looked : ReflTransGen LooksUp table (resolveTypedField owner name type table).table :=
        .single ⟨owner, ⟨name, some type⟩, rfl⟩
      simp only [resolveMember]
      rw [Attempt.run_bind_of_ok (by rw [Attempt.run_lift])]
      simp only [Attempt.run_lift]
      cases (resolveTypedField owner name type table).value with
      | none => exact ⟨rfl, looked⟩
      | some mapped =>
          dsimp only
          rw [Attempt.run_bind_table]
          cases (resolveTypedField owner name type table).table.mapFieldType type with
          | error failure => exact ⟨rfl, looked⟩
          | ok type => exact ⟨rfl, looked⟩

/-! ## The choice among several classes -/

section Choice

variable {α : Type}

/-- From all tables on the way, the look-ups give the same answers, put nothing out and stay on the way. -/
structure LooksUpStably (stable : Table → Prop) (lookUp : ClassName → Attempt (Resolved α))
    (answer : ClassName → Resolved α) : Prop where
  value : ∀ now, stable now → ∀ target, ((lookUp target).run now).value = .ok (answer target)
  quiet : ∀ now, stable now → ∀ target, ((lookUp target).run now).output = .empty
  stays : ∀ now, stable now → ∀ target, stable ((lookUp target).run now).table

/-- The report that a target gives another result than the chosen one, if it does. -/
def conflict? [DecidableEq α] [ToString α] (place : Place) (answer : ClassName → Resolved α) (chosen : α)
    (chosenTarget target : ClassName) : Option Diagnostic :=
  match answer target with
  | .found value =>
    if chosen = value then none
    else
      some (.conflictingTargets place.className (some place.member) (toString chosen) chosenTarget
        (toString value) target)
  | _ => none

/-- The candidates, if the outcome is ambiguous. -/
def Resolved.candidates? : Resolved α → Option (List String)
  | .ambiguous candidates => some candidates
  | _ => none

private theorem Resolved.candidates?_eq_some {resolved : Resolved α} {candidates : List String} :
    resolved.candidates? = some candidates ↔ resolved = .ambiguous candidates := by
  cases resolved <;> simp [Resolved.candidates?]

private theorem Resolved.eq_missing {resolved : Resolved α} (noResult : ∀ value, resolved ≠ .found value)
    (clear : resolved.candidates? = none) : resolved = .missing := by
  cases resolved with
  | found value => exact absurd rfl (noResult value)
  | missing => rfl
  | ambiguous candidates => cases clear

variable [DecidableEq α] [ToString α] {stable : Table → Prop}
  {lookUp : ClassName → Attempt (Resolved α)} {answer : ClassName → Resolved α}

/-- After a choice, every target is only compared with it. -/
theorem chooseFrom_of_chosen (place : Place) (stably : LooksUpStably stable lookUp answer) {table : Table}
    (start : stable table) {choice : Choice α} {chosen : α} {chosenTarget : ClassName}
    (isChosen : choice.chosen = some (chosen, chosenTarget)) (targets : List ClassName) :
    ∃ result, ((chooseFrom place lookUp choice targets).run table).value = .ok result
      ∧ result.chosen = some (chosen, chosenTarget)
      ∧ ((chooseFrom place lookUp choice targets).run table).output.diagnostics
        = targets.filterMap (conflict? place answer chosen chosenTarget) := by
  induction targets generalizing table choice with
  | nil => exact ⟨choice, rfl, isChosen, rfl⟩
  | cons target rest ih =>
      have isAnswer := stably.value table start target
      have quiet := stably.quiet table start target
      have still := stably.stays table start target
      rw [chooseFrom, Attempt.run_bind_of_ok isAnswer, List.filterMap_cons]
      simp only [Output.diagnostics_append, quiet, Output.diagnostics_empty, List.nil_append]
      cases outcome : answer target with
      | missing => simpa [conflict?, outcome] using ih still isChosen
      | ambiguous candidates =>
          let next : Choice α := { choice with candidates := choice.candidates.or (some candidates) }
          have nextChosen : next.chosen = some (chosen, chosenTarget) := isChosen
          simp only [conflict?, outcome]
          exact ih still nextChosen
      | found value =>
          obtain ⟨result, success, kept, reports⟩ := ih still isChosen
          simp only [isChosen, conflict?, outcome]
          by_cases same : chosen = value
          · simp only [same, ne_eq, not_true_eq_false, if_false, if_true]
            rw [same] at reports kept
            exact ⟨result, success, kept, reports⟩
          · simp only [same, ne_eq, not_false_eq_true, if_true, if_false]
            refine ⟨result, success, kept, ?_⟩
            rw [← reports]
            rfl

/-- How a choice ends that was open before some targets, with what is reported: the first target
with a result is chosen; if there is none, the first ambiguity counts. -/
inductive Choice.Settles (place : Place) (answer : ClassName → Resolved α)
    (candidates : Option (List String))
    (targets : List ClassName) (result : Choice α) : List Diagnostic → Prop where
  | chosen {before after : List ClassName} {target : ClassName} {value : α}
      (split : targets = before ++ target :: after) (gives : answer target = .found value)
      (first : ∀ earlier ∈ before, ∀ other, answer earlier ≠ .found other)
      (isChosen : result.chosen = some (value, target)) :
      Settles place answer candidates targets result (after.filterMap (conflict? place answer value target))
  | stillOpen (noResult : ∀ target ∈ targets, ∀ value, answer target ≠ .found value)
      (isOpen : result.chosen = none)
      (ambiguity : result.candidates
        = candidates.or (targets.findSome? fun target => (answer target).candidates?)) :
      Settles place answer candidates targets result []

/-- A target without a result only adds its ambiguity, if there was none. -/
theorem Choice.Settles.cons {place : Place} {candidates : Option (List String)} {target : ClassName}
    {rest : List ClassName} {result : Choice α} {reports : List Diagnostic}
    (noResult : ∀ value, answer target ≠ .found value)
    (later : Choice.Settles place answer (candidates.or (answer target).candidates?) rest result reports) :
    Choice.Settles place answer candidates (target :: rest) result reports := by
  cases later with
  | @chosen before after owner value split gives first isChosen =>
      have whole : target :: rest = (target :: before) ++ owner :: after := by rw [split, List.cons_append]
      exact .chosen whole gives (List.forall_mem_cons.2 ⟨noResult, first⟩) isChosen
  | stillOpen noOthers isOpen ambiguity =>
      refine .stillOpen (List.forall_mem_cons.2 ⟨noResult, noOthers⟩) isOpen ?_
      rw [ambiguity, Option.or_assoc, List.findSome?_cons]
      cases (answer target).candidates? <;> rfl

private theorem chooseFrom_of_open (place : Place) (stably : LooksUpStably stable lookUp answer)
    {table : Table}
    (start : stable table) {choice : Choice α} (isOpen : choice.chosen = none) (targets : List ClassName) :
    ∃ result, ((chooseFrom place lookUp choice targets).run table).value = .ok result
      ∧ Choice.Settles place answer choice.candidates targets result
        ((chooseFrom place lookUp choice targets).run table).output.diagnostics := by
  induction targets generalizing table choice with
  | nil => exact ⟨choice, rfl, .stillOpen (by simp) isOpen (by simp)⟩
  | cons target rest ih =>
      have isAnswer := stably.value table start target
      have quiet := stably.quiet table start target
      have still := stably.stays table start target
      rw [chooseFrom, Attempt.run_bind_of_ok isAnswer]
      simp only [Output.diagnostics_append, quiet, Output.diagnostics_empty, List.nil_append]
      cases outcome : answer target with
      | missing =>
          obtain ⟨result, success, settles⟩ := ih still isOpen
          refine ⟨result, success, .cons (by simp [outcome]) ?_⟩
          have clear : (answer target).candidates? = none := by rw [outcome]; rfl
          rw [clear, Option.or_none]
          exact settles
      | ambiguous candidates =>
          let next : Choice α := { choice with candidates := choice.candidates.or (some candidates) }
          have nextOpen : next.chosen = none := isOpen
          obtain ⟨result, success, settles⟩ := ih still nextOpen
          refine ⟨result, success, .cons (by simp [outcome]) ?_⟩
          rw [outcome]
          exact settles
      | found value =>
          simp only [isOpen]
          let next : Choice α := { choice with chosen := some (value, target) }
          have nextChosen : next.chosen = some (value, target) := rfl
          obtain ⟨result, success, isChosen, reports⟩ :=
            chooseFrom_of_chosen place stably still nextChosen rest
          refine ⟨result, success, ?_⟩
          rw [reports]
          exact .chosen (List.nil_append _).symm outcome (by simp) isChosen

/-- A choice among targets edits nothing, and stays on the way. -/
theorem stays_chooseFrom (place : Place) (stably : LooksUpStably stable lookUp answer) {table : Table}
    (start : stable table) (choice : Choice α) (targets : List ClassName) :
    stable ((chooseFrom place lookUp choice targets).run table).table
      ∧ ((chooseFrom place lookUp choice targets).run table).output.edits = [] := by
  induction targets generalizing table choice with
  | nil => exact ⟨start, rfl⟩
  | cons target rest ih =>
      have still := stably.stays table start target
      rw [chooseFrom, Attempt.run_bind_of_ok (stably.value table start target)]
      simp only [Output.edits_append, stably.quiet table start target, Output.edits_empty, List.nil_append]
      cases answer target with
      | missing => exact ih still choice
      | ambiguous candidates => exact ih still _
      | found value =>
          cases choice.chosen with
          | none => exact ih still _
          | some first =>
              simp only
              split
              · exact ih still choice
              · exact ih still choice

/-- What looking something up in all targets comes to, with what is reported: the first result, and the later
targets that give another one; else the first ambiguity; else nothing. -/
inductive FirstOfTargets (place : Place) (answer : ClassName → Resolved α) :
    Resolved α → List Diagnostic → Prop where
  | found {before after : List ClassName} {target : ClassName} {value : α}
      (targets : place.targets = before ++ target :: after) (gives : answer target = .found value)
      (first : ∀ earlier ∈ before, ∀ other, answer earlier ≠ .found other) :
      FirstOfTargets place answer (.found value) (after.filterMap (conflict? place answer value target))
  | ambiguous {before after : List ClassName} {target : ClassName} {candidates : List String}
      (noResult : ∀ other ∈ place.targets, ∀ value, answer other ≠ .found value)
      (targets : place.targets = before ++ target :: after) (gives : answer target = .ambiguous candidates)
      (first : ∀ earlier ∈ before, answer earlier = .missing) :
      FirstOfTargets place answer (.ambiguous candidates) []
  | missing (nowhere : ∀ target ∈ place.targets, answer target = .missing) :
      FirstOfTargets place answer .missing []

/-- Looking something up in all targets edits nothing, and stays on the way. -/
theorem stays_acrossTargets (place : Place) (stably : LooksUpStably stable lookUp answer) {table : Table}
    (start : stable table) :
    stable ((acrossTargets place lookUp).run table).table
      ∧ ((acrossTargets place lookUp).run table).output.edits = [] := by
  have isOpen : (⟨none, none⟩ : Choice α).chosen = none := rfl
  obtain ⟨stays, silent⟩ := stays_chooseFrom place stably start ⟨none, none⟩ place.targets
  obtain ⟨result, success, _⟩ := chooseFrom_of_open place stably start isOpen place.targets
  rw [acrossTargets, Attempt.run_bind_of_ok success, Attempt.run_pure, Output.append_empty]
  exact ⟨stays, silent⟩

/-- Looking something up in all targets gives the first result, and reports what differs from it. -/
theorem run_acrossTargets (place : Place) (stably : LooksUpStably stable lookUp answer) {table : Table}
    (start : stable table) :
    ∃ outcome, ((acrossTargets place lookUp).run table).value = .ok outcome
      ∧ FirstOfTargets place answer outcome ((acrossTargets place lookUp).run table).output.diagnostics := by
  have isOpen : (⟨none, none⟩ : Choice α).chosen = none := rfl
  obtain ⟨result, success, settles⟩ := chooseFrom_of_open place stably start isOpen place.targets
  rw [acrossTargets, Attempt.run_bind_of_ok success]
  simp only [Attempt.run_pure, Output.diagnostics_append, Output.diagnostics_empty, List.append_nil]
  refine ⟨result.outcome, rfl, ?_⟩
  generalize ((chooseFrom place lookUp ⟨none, none⟩ place.targets).run table).output.diagnostics = reports
    at settles
  cases settles with
  | chosen split gives first isChosen =>
      rw [Choice.outcome, isChosen]
      exact .found split gives first
  | stillOpen noResult isOpen ambiguity =>
      rw [Choice.outcome, isOpen, ambiguity, Option.none_or]
      cases firstAmbiguous : place.targets.findSome? fun target => (answer target).candidates? with
      | none =>
          refine .missing fun target member => ?_
          exact Resolved.eq_missing (noResult target member)
            (List.findSome?_eq_none_iff.1 firstAmbiguous target member)
      | some listed =>
          obtain ⟨before, target, after, split, gives, clear⟩ := List.findSome?_eq_some_iff.1 firstAmbiguous
          refine .ambiguous noResult split (Resolved.candidates?_eq_some.1 gives) fun earlier member => ?_
          refine Resolved.eq_missing (noResult earlier ?_) (clear earlier member)
          rw [split]
          exact List.mem_append_left _ member

/-- There is one first item with a property. -/
theorem eq_of_first_split {β : Type} (property : β → Prop)
    {items before after otherBefore otherAfter : List β}
    {item other : β} (split : items = before ++ item :: after) (has : property item)
    (first : ∀ earlier ∈ before, ¬property earlier) (otherSplit : items = otherBefore ++ other :: otherAfter)
    (otherHas : property other) (otherFirst : ∀ earlier ∈ otherBefore, ¬property earlier) :
    item = other ∧ after = otherAfter := by
  classical
  have rest : items.dropWhile (fun item => !decide (property item)) = item :: after := by
    rw [split, List.dropWhile_append_of_pos (by simpa using first),
      List.dropWhile_cons_of_neg (by simpa using has)]
  have otherRest : items.dropWhile (fun item => !decide (property item)) = other :: otherAfter := by
    rw [otherSplit, List.dropWhile_append_of_pos (by simpa using otherFirst),
      List.dropWhile_cons_of_neg (by simpa using otherHas)]
  exact List.cons.inj (rest.symm.trans otherRest)

/-- The answers leave one outcome, with one list of reports. -/
theorem FirstOfTargets.unique {place : Place} {outcome other : Resolved α} {reports others : List Diagnostic}
    (isFirst : FirstOfTargets place answer outcome reports)
    (isOther : FirstOfTargets place answer other others) :
    outcome = other ∧ reports = others := by
  have inside : ∀ {before after : List ClassName} {target : ClassName},
      place.targets = before ++ target :: after →
      target ∈ place.targets := by
    intro before after target split
    rw [split]
    exact List.mem_append_right _ List.mem_cons_self
  cases isFirst with
  | found split gives first =>
      cases isOther with
      | found otherSplit otherGives otherFirst =>
          obtain ⟨rfl, rfl⟩ := eq_of_first_split (fun target => ∃ value, answer target = .found value) split
            ⟨_, gives⟩ (by simpa using first) otherSplit ⟨_, otherGives⟩ (by simpa using otherFirst)
          rw [gives] at otherGives
          cases otherGives
          exact ⟨rfl, rfl⟩
      | ambiguous noResult => exact absurd gives (noResult _ (inside split) _)
      | missing nowhere =>
          rw [nowhere _ (inside split)] at gives
          cases gives
  | ambiguous noResult split gives first =>
      cases isOther with
      | found otherSplit otherGives => exact absurd otherGives (noResult _ (inside otherSplit) _)
      | ambiguous _ otherSplit otherGives otherFirst =>
          obtain ⟨rfl, rfl⟩ := eq_of_first_split (fun target => answer target ≠ .missing) split
            (by simp [gives]) (by simpa using first) otherSplit (by simp [otherGives])
            (by simpa using otherFirst)
          rw [gives] at otherGives
          cases otherGives
          exact ⟨rfl, rfl⟩
      | missing nowhere =>
          rw [nowhere _ (inside split)] at gives
          cases gives
  | missing nowhere =>
      cases isOther with
      | found otherSplit otherGives =>
          rw [nowhere _ (inside otherSplit)] at otherGives
          cases otherGives
      | ambiguous _ otherSplit otherGives =>
          rw [nowhere _ (inside otherSplit)] at otherGives
          cases otherGives
      | missing => exact ⟨rfl, rfl⟩

/-- A result is found exactly if some target is the first one to give it. -/
theorem FirstOfTargets.eq_found_iff {place : Place} {outcome : Resolved α} {reports : List Diagnostic}
    (isFirst : FirstOfTargets place answer outcome reports) {value : α} :
    outcome = .found value ↔ ∃ before target after, place.targets = before ++ target :: after
      ∧ answer target = .found value ∧ ∀ earlier ∈ before, ∀ other, answer earlier ≠ .found other := by
  constructor
  · intro isFound
    subst isFound
    cases isFirst with
    | found split gives first => exact ⟨_, _, _, split, gives, first⟩
  · intro found
    obtain ⟨before, target, after, split, gives, first⟩ := found
    exact (isFirst.unique (.found split gives first)).1

end Choice

/-! ## Members of the targets -/

/-- The answers of a table to the question for a member, of which there is one for every class if
the table is sound. -/
theorem Table.Sound.exists_memberAnswers {table : Table} (sound : table.Sound) (member : MemberReference) :
    ∃ answer : ClassName → Resolved MemberReference,
      (∀ owner, table.memberAnswer owner member = .ok (answer owner))
        ∧ LooksUpStably (ReflTransGen LooksUp table) (resolveMember · member) answer := by
  choose answer answers using fun owner => sound.exists_memberAnswer owner member
  refine ⟨answer, answers, fun now reached target => ?_,
    fun now _ target => (run_resolveMember target member now).1,
    fun now reached target => reached.trans (run_resolveMember target member now).2⟩
  rw [value_resolveMember (sound.looksUps reached), ← answers target]
  induction reached with
  | refl => rfl
  | tail _ last ih => rw [memberAnswer_looksUp last, ih]

/-- The outcome for all targets is the answer of the first target that has a result. -/
theorem found_acrossTargets {place : Place} {member image : MemberReference} {table : Table}
    (sound : table.Sound) :
    ((acrossTargets place (resolveMember · member)).run table).value = .ok (.found image)
      ↔ ∃ before owner after, place.targets = before ++ owner :: after
        ∧ table.memberAnswer owner member = .ok (.found image)
        ∧ ∀ earlier ∈ before, ∀ other, table.memberAnswer earlier member ≠ .ok (.found other) := by
  obtain ⟨answer, answers, stably⟩ := sound.exists_memberAnswers member
  obtain ⟨outcome, success, first⟩ := run_acrossTargets place stably .refl
  rw [success, Except.ok.injEq, first.eq_found_iff]
  simp only [answers, ne_eq, Except.ok.injEq]

end MixinLink
