import MixinLink.Proofs.Permissions

/-!
# Which linkages can fail, and when

In a sound table every class and every type can be mapped, so look-ups and injections do not fail. All other
linkages check what can be wrong with them before they edit a literal or name a member. What has happened
when one of them fails is told by a contract: any contract that lets fields be looked up is met then.

Main exports: `reportingClasses`, `reportingClasses_permits`, `Contract.PermitsSearching`,
`Linking.meetsOnFailure`, `meetsOnFailure_remapFieldMark`.
-/

namespace MixinLink

open Relation (ReflTransGen)

/-! ## What is reported -/

/-- The table stays sound. Members are reported, and classes with annotations that cannot be read. -/
def reportingClasses (decls : List ClassDecl) : Contract where
  kept := Table.Sound
  edits _ := True
  reports diagnostic := diagnostic.namesMember = true
    ∨ ∃ decl ∈ decls, ∃ failure, decl.FailsToRead failure
      ∧ diagnostic = .malformedLinkage decl.name none failure.message

/-- Remapping reports members, and classes with annotations that cannot be read. -/
theorem reportingClasses_permits (hierarchy : Hierarchy) (decls : List ClassDecl) :
    (reportingClasses decls).Permits hierarchy decls where
  sound _ sound := sound
  changes _ _ step sound := Table.Sound.change sound step
  edits _ _ _ _ _ _ := trivial
  disagreements _ _ _ _ names := .inl names
  members _ _ _ := .inl rfl
  classes decl declared failure fails := .inr ⟨decl, declared, failure, fails, rfl⟩

/-! ## Members that fail are not named -/

/-- The contract is about sound tables, and lets linkages look for names: fields may be looked up in targets,
interfaces be completed, and problems of members be reported. -/
structure Contract.PermitsSearching (contract : Contract) (hierarchy : Hierarchy) (scope : Scope) :
    Prop where
  sound : ∀ table, contract.kept table → table.Sound
  looksUp : scope.targets → ∀ before after, LooksUp before after → contract.kept before → contract.kept after
  completes : ∀ table name, scope.interfaces name → contract.kept table →
    contract.kept (table.complete hierarchy name).value
  reports : ∀ diagnostic, diagnostic.namesMember = true → contract.reports diagnostic

section OnFailure

variable {contract : Contract} {hierarchy : Hierarchy} {scope : Scope}

/-- An attempt that is sure to succeed from sound tables, and reports only members. -/
private theorem meetsOnFailure_of_succeeds {attempt : Attempt Unit}
    (succeeds : attempt.Meets (reportingClasses []) fun _ => False)
    (sound : ∀ table, contract.kept table → table.Sound)
    (reports : ∀ diagnostic, diagnostic.namesMember = true → contract.reports diagnostic) :
    attempt.MeetsOnFailure contract := by
  refine .ofSucceeds succeeds sound fun diagnostic reported => ?_
  rcases reported with names | ⟨_, declared, _⟩
  · exact reports diagnostic names
  · cases declared

/-- A name is checked first, so a field is not named if this fails. -/
theorem meetsOnFailure_nameField (className : ClassName) (field : FieldDecl) (text : String) :
    (nameField className field text).MeetsOnFailure contract := by
  intro table kept
  cases isName : FieldName.parse text with
  | error failure =>
      rw [run_nameField_of_error isName]
      exact ⟨by simp, fun _ _ => ⟨kept, by simp⟩⟩
  | ok named =>
      obtain ⟨log, run⟩ := run_nameField_of_ok isName table
      rw [run]
      exact ⟨by simp, by simp⟩

/-- A name is checked first, so a method is not named if this fails. -/
theorem meetsOnFailure_nameMethod (className : ClassName) (method : MethodDecl) (text : String) :
    (nameMethod className method text).MeetsOnFailure contract := by
  intro table kept
  cases isName : MethodName.parse text with
  | error failure =>
      rw [run_nameMethod_of_error isName]
      exact ⟨by simp, fun _ _ => ⟨kept, by simp⟩⟩
  | ok named =>
      obtain ⟨log, run⟩ := run_nameMethod_of_ok isName table
      rw [run]
      exact ⟨by simp, by simp⟩

/-- The use of a mapped name changes nothing if it fails. -/
theorem Use.meetsOnFailure {name mapped : String} {sites : List LiteralSite} {attempt : Attempt Unit}
    (use : Use scope name mapped sites attempt) : attempt.MeetsOnFailure contract := by
  cases use with
  | nameField => exact meetsOnFailure_nameField _ _ _
  | nameMethod => exact meetsOnFailure_nameMethod _ _ _
  | nameAccessor => exact meetsOnFailure_nameMethod _ _ _
  | edit readable isName =>
      refine .lift fun table diagnostic member => ?_
      rw [Remap.diagnostics_edit] at member
      cases member

/-- Looking up fields in targets keeps the contract. -/
private theorem Contract.PermitsSearching.looksUps (permits : contract.PermitsSearching hierarchy scope)
    (may : scope.targets) {table after : Table} (kept : contract.kept table)
    (steps : ReflTransGen LooksUp table after) : contract.kept after := by
  induction steps with
  | refl => exact kept
  | tail _ last ih => exact permits.looksUp may _ _ last ih

/-- After a search that keeps the contract, what was found has to be used as the contract asks for if this
fails. -/
private theorem meetsOnFailure_whenFound (permits : contract.PermitsSearching hierarchy scope) {α : Type}
    {text : α → String} {name missing : String} {search : Attempt (Resolved α)} {use : α → Attempt Unit}
    (searches : ∀ table : Table, table.Sound → Searches text name table (search.run table))
    (stays : ∀ table, contract.kept table → contract.kept (search.run table).table)
    (uses : ∀ mapped, (use mapped).MeetsOnFailure contract) :
    (whenFound search missing use).MeetsOnFailure contract := by
  intro table kept
  have ends := searches table (permits.sound table kept)
  obtain ⟨outcome, success⟩ := ends.success
  refine .bind_of_ok success (stays table kept) ⟨?_, fun diagnostic member => ?_⟩ ?_
  · rw [ends.silent]
    rintro _ ⟨⟩
  · exact permits.reports diagnostic (ends.reports diagnostic member).1
  · cases outcome with
    | found mapped => exact uses mapped
    | missing => exact .log _ _
    | ambiguous candidates => exact .log _ _

/-- A linkage that fails has looked for names, and done nothing else. -/
theorem Linking.meetsOnFailure (permits : contract.PermitsSearching hierarchy scope)
    {sites : List LiteralSite} {attempt : Attempt Unit} (links : Linking hierarchy scope sites attempt) :
    attempt.MeetsOnFailure contract := by
  induction links with
  | injection injects =>
      have succeeds : Attempt.Meets (reportingClasses []) (fun _ => False) _ :=
        injects.meets (reportingClasses_permits hierarchy [])
      exact meetsOnFailure_of_succeeds succeeds permits.sound permits.reports
  | refused failure => exact .refused failure
  | logged noted next ih => exact .bindLift (.note trivial) fun _ => ih
  | resolving may whenKnown whenUnknown ihKnown ihUnknown =>
      refine .bindLift (.resolveClass fun table kept => permits.completes table _ may kept) fun known => ?_
      cases known with
      | true => exact ihKnown
      | false => exact ihUnknown
  | whenField may uses =>
      refine meetsOnFailure_whenFound permits (fun table sound => searches_findField sound _ _) ?_
        fun mapped => (uses mapped).meetsOnFailure
      intro table kept
      exact permits.looksUps may kept (searches_findField (permits.sound table kept) _ _).looksUps
  | whenMethod may uses =>
      refine meetsOnFailure_whenFound permits (fun table _ => searches_findMethod table _ _) ?_
        fun mapped => (uses mapped).meetsOnFailure
      exact fun table kept => permits.looksUps may kept (searches_findMethod table _ _).looksUps
  | whenInherited uses =>
      -- a method that is looked up in one class leaves the table as it is
      exact meetsOnFailure_whenFound permits (fun table _ => searches_lookUpMethod table _ _)
        (fun _ kept => kept) fun mapped => (uses mapped).meetsOnFailure
  | weaken built fewer ih => exact ih

end OnFailure

/-! ## Shadow fields -/

/-- Between the lead of a field name and a mapped name there is nothing that a field name may not have. -/
theorem FieldName.exists_withLead {own : FieldName} {lead rest : String} (mapped : FieldName)
    (split : own.text = lead ++ rest) : ∃ named, FieldName.parse (lead ++ mapped.text) = .ok named := by
  have ownValid := own.valid
  have mappedValid := mapped.valid
  rw [split, String.toList_append] at ownValid
  simp only [isSimpleText, List.all_append, Bool.and_eq_true, Bool.not_eq_true',
    List.isEmpty_eq_false_iff] at ownValid mappedValid
  have valid : isSimpleText (lead ++ mapped.text).toList = true := by
    simp [isSimpleText, String.toList_append, ownValid.2.1, mappedValid.2, mappedValid.1]
  exact ⟨⟨lead ++ mapped.text, valid⟩, FieldName.parse_eq_ok.2 rfl⟩

/-- Once the name that a shadow field stands for is read, nothing fails. -/
private theorem succeeds_shadowField {place : Place} (field : FieldDecl) (shadow : ShadowData)
    (signature : FieldSignature) (missing : String) :
    (whenFound (findField place signature) missing fun mapped =>
      nameField place.className field (shadowName shadow (shadow.strip? field.name.text) mapped.text)).Meets
      (reportingClasses []) fun _ => False := by
  refine (reportingClasses_permits .empty []).meets_whenFound
    (fun table sound => searches_findField sound place signature) fun mapped table sound _ => ?_
  obtain ⟨lead, own, given⟩ := shadow.exists_lead field.name.text
  obtain ⟨named, parsed⟩ := FieldName.exists_withLead mapped own
  rw [← given] at parsed
  obtain ⟨log, run⟩ := run_nameField_of_ok parsed table
  rw [Attempt.MeetsAt, run]
  exact ⟨Table.Sound.update sound fun _ entry => entry.mapField _ _, .empty, by rintro _ ⟨⟩⟩

/-- A linkage of a field that fails has done nothing at all. -/
theorem meetsOnFailure_remapFieldMark {contract : Contract} {place : Place}
    (reports : ∀ diagnostic, diagnostic.namesMember = true → contract.reports diagnostic)
    (sound : ∀ table, contract.kept table → table.Sound) (field : FieldDecl) (mark : Annotation) :
    (remapFieldMark place field mark).MeetsOnFailure contract := by
  unfold remapFieldMark
  cases Linkage.ofField? mark with
  | error failure => exact .refused failure
  | ok linkage =>
      cases linkage with
      | none => exact .pure ()
      | some linkage =>
          cases linkage with
          | shadowField shadow =>
              change (remapShadowField place field shadow).MeetsOnFailure contract
              unfold remapShadowField
              dsimp only
              cases FieldName.parse ((shadow.strip? field.name.text).getD field.name.text) with
              | error failure => exact .refused failure
              | ok name =>
                  exact meetsOnFailure_of_succeeds (succeeds_shadowField field shadow _ _) sound reports
          | _ => exact .refused _

end MixinLink
