import MixinLink.Proofs.BuildingBlocks
import MixinLink.Proofs.Contracts
import MixinLink.Proofs.Rewording

/-!
# Contracts that remapping meets

A contract permits remapping some classes if it is about sound tables, is kept by all changes that remapping
makes, and allows the edits and the reports that remapping may put out. Whatever is put together from the
blocks of remapping then meets the contract. So a property of remapping a source file is shown by a few facts
about tables, none of which is about how remapping goes on.

Main exports: `ClassDecl.FailsToRead`, `Contract.Permits`, `Injecting.meets`, `Linking.meets`,
`Remapping.meets`, `Contract.Permits.meets_remapOne`, `Contract.Permits.meets_each`.
-/

namespace MixinLink

open Relation (ReflTransGen)

/-- The annotations of a class as a whole cannot be read. -/
def ClassDecl.FailsToRead (decl : ClassDecl) (failure : Failure) : Prop :=
  (MixinData.ofClass? decl).run.value = .error failure ∨ InterfaceData.ofClass? decl = .error failure

/-- What a contract has to permit for remapping to meet it. -/
structure Contract.Permits (contract : Contract) (hierarchy : Hierarchy) (decls : List ClassDecl) :
    Prop where
  sound : ∀ table, contract.kept table → table.Sound
  changes : ∀ before after, Change hierarchy decls before after → contract.kept before → contract.kept after
  edits : ∀ (table : Table) (literal : StringLiteral) (text : String), contract.kept table →
    table.Rewords literal.value text → literal.value ≠ text →
    contract.edits ⟨literal.span, literal.value, text⟩
  /-- Members of one name that are mapped in different ways may be reported. -/
  disagreements : ∀ table diagnostic, contract.kept table → table.Disagrees →
    diagnostic.namesMember = true → contract.reports diagnostic
  members : ∀ className member message, contract.reports (.malformedLinkage className (some member) message)
  classes : ∀ decl ∈ decls, ∀ failure, decl.FailsToRead failure →
    contract.reports (.malformedLinkage decl.name none failure.message)

variable {contract : Contract} {hierarchy : Hierarchy} {decls : List ClassDecl} {failures : Failure → Prop}

namespace Contract.Permits

/-- Looking up fields keeps the contract. -/
theorem looksUps (permits : contract.Permits hierarchy decls) {table after : Table}
    (kept : contract.kept table) (steps : ReflTransGen LooksUp table after) : contract.kept after := by
  induction steps with
  | refl => exact kept
  | tail _ last ih => exact permits.changes _ _ (change_of_looksUp last) ih

/-- Completing a class keeps the contract. -/
theorem meets_resolveClass (permits : contract.Permits hierarchy decls) (name : ClassName) :
    Remap.Meets contract (resolveClass hierarchy name) fun _ => True :=
  .resolveClass fun table kept => permits.changes table _ (.complete table name) kept

/-- A literal that gets a text that the table has to offer. -/
theorem meetsAt_of_rewording (permits : contract.Permits hierarchy decls) {table : Table}
    (kept : contract.kept table) {attempt : Attempt Unit} {literal : StringLiteral}
    (ends : Rewording literal table (attempt.run table)) : attempt.MeetsAt contract failures table := by
  refine ⟨permits.looksUps kept ends.looksUps, ⟨fun edit member => ?_, fun diagnostic member => ?_⟩, ?_⟩
  · obtain ⟨text, rewords, differs, rfl⟩ := ends.edits edit member
    exact permits.edits table literal text kept rewords differs
  · obtain ⟨names, disagrees⟩ := ends.reports diagnostic member
    exact permits.disagreements table diagnostic kept disagrees names
  · intro failure failed
    rw [ends.success] at failed
    cases failed

/-- What a search finds is used at a table that maps a member to it. -/
theorem meets_whenFound (permits : contract.Permits hierarchy decls) {α : Type} {text : α → String}
    {name missing : String} {search : Attempt (Resolved α)} {use : α → Attempt Unit}
    (searches : ∀ table : Table, table.Sound → Searches text name table (search.run table))
    (uses : ∀ mapped table, contract.kept table → table.MapsMember name (text mapped) →
      (use mapped).MeetsAt contract failures table) :
    (whenFound search missing use).Meets contract failures := by
  intro table kept
  have ends := searches table (permits.sound table kept)
  have still := permits.looksUps kept ends.looksUps
  obtain ⟨outcome, success⟩ := ends.success
  refine .bind_of_ok success ⟨?_, fun diagnostic member => ?_⟩ ?_
  · rw [ends.silent]
    rintro _ ⟨⟩
  · obtain ⟨names, disagrees⟩ := ends.reports diagnostic member
    exact permits.disagreements table diagnostic kept disagrees names
  · cases outcome with
    | found mapped => exact uses mapped _ still ((ends.maps mapped success).looksUps ends.looksUps)
    | missing => exact Attempt.Meets.lift (.note trivial) _ still
    | ambiguous candidates => exact Attempt.Meets.lift (.note trivial) _ still

end Contract.Permits

/-! ## The blocks -/

/-- Injections meet the contract, and do not fail. -/
theorem Injecting.meets (permits : contract.Permits hierarchy decls) {sites : List LiteralSite}
    {attempt : Attempt Unit} (injects : Injecting hierarchy sites attempt) :
    attempt.Meets contract failures := by
  induction injects with
  | nothing => exact .pure
  | log level text => exact .lift (.note trivial)
  | classLiteral readable written =>
      intro table kept
      exact permits.meetsAt_of_rewording kept
        (rewording_remapClassLiteral (permits.sound table kept) written)
  | targetMethod readBy =>
      intro table kept
      exact permits.meetsAt_of_rewording kept (rewording_remapTargetMethod (permits.sound table kept) readBy)
  | pointMember reads =>
      intro table kept
      exact permits.meetsAt_of_rewording kept (rewording_remapPointMember (permits.sound table kept) reads)
  | resolving whenKnown whenUnknown ihKnown ihUnknown =>
      refine .bindLift (permits.meets_resolveClass _) fun known => ?_
      cases known with
      | true => exact ihKnown
      | false => exact ihUnknown
  | seq start next ihStart ihNext => exact ihStart.seq ihNext
  | weaken built fewer ih => exact ih

private theorem meetsAt_nameField {table : Table} (kept : contract.kept table) {className : ClassName}
    {field : FieldDecl} {text : String}
    (keeps : ∀ named : FieldName, named.text = text →
      contract.kept (table.update className (·.mapField field.signature named))) :
    (nameField className field text).MeetsAt contract (fun _ => True) table := by
  cases isName : FieldName.parse text with
  | error failure =>
      rw [Attempt.MeetsAt, run_nameField_of_error isName]
      exact ⟨kept, .empty, fun _ _ => trivial⟩
  | ok named =>
      obtain ⟨log, run⟩ := run_nameField_of_ok isName table
      rw [Attempt.MeetsAt, run]
      exact ⟨keeps named (FieldName.parse_eq_ok.1 isName), .empty, fun _ _ => trivial⟩

private theorem meetsAt_nameMethod {table : Table} (kept : contract.kept table) {className : ClassName}
    {method : MethodDecl} {text : String}
    (keeps : ∀ named : MethodName, named.text = text →
      contract.kept (table.update className (·.mapMethod method.signature named))) :
    (nameMethod className method text).MeetsAt contract (fun _ => True) table := by
  cases isName : MethodName.parse text with
  | error failure =>
      rw [Attempt.MeetsAt, run_nameMethod_of_error isName]
      exact ⟨kept, .empty, fun _ _ => trivial⟩
  | ok named =>
      obtain ⟨log, run⟩ := run_nameMethod_of_ok isName table
      rw [Attempt.MeetsAt, run]
      exact ⟨keeps named (MethodName.parse_eq_ok.1 isName), .empty, fun _ _ => trivial⟩

/-- A mapped name is used as the contract asks for, at a table that has it. -/
theorem Use.meetsAt (permits : contract.Permits hierarchy decls) {name mapped : String}
    {sites : List LiteralSite} {attempt : Attempt Unit}
    (use : Use (.declared decls) name mapped sites attempt)
    {table : Table} (kept : contract.kept table) (maps : table.MapsMember name mapped) :
    attempt.MeetsAt contract (fun _ => True) table := by
  cases use with
  | nameField may own isGiven =>
      obtain ⟨decl, declared, rfl, member⟩ := may
      refine meetsAt_nameField kept fun named isText => ?_
      exact permits.changes _ _ (.nameField declared member maps own (isText.trans isGiven)) kept
  | nameMethod may own isGiven =>
      obtain ⟨decl, declared, rfl, member⟩ := may
      refine meetsAt_nameMethod kept fun named isText => ?_
      exact permits.changes _ _ (.nameMethod declared member maps own (isText.trans isGiven)) kept
  | nameAccessor may marked parsed isMember =>
      obtain ⟨decl, declared, rfl, member⟩ := may
      subst isMember
      refine meetsAt_nameMethod kept fun named isText => ?_
      exact permits.changes _ _ (.nameAccessor declared member marked parsed maps isText) kept
  | edit readable isName =>
      subst isName
      exact .lift (.edit kept fun differs => permits.edits table _ mapped kept (.name maps) differs)

/-- Linkages meet the contract, also where they fail. -/
theorem Linking.meets (permits : contract.Permits hierarchy decls) {sites : List LiteralSite}
    {attempt : Attempt Unit} (links : Linking hierarchy (.declared decls) sites attempt) :
    attempt.Meets contract fun _ => True := by
  induction links with
  | injection injects => exact injects.meets permits
  | refused failure => exact .refused trivial
  | logged noted next ih => exact Attempt.Meets.seq (.lift (.note trivial)) ih
  | resolving may whenKnown whenUnknown ihKnown ihUnknown =>
      refine .bindLift (permits.meets_resolveClass _) fun known => ?_
      cases known with
      | true => exact ihKnown
      | false => exact ihUnknown
  | whenField may uses =>
      refine permits.meets_whenFound (fun table sound => searches_findField sound _ _) ?_
      exact fun mapped table kept maps => (uses mapped).meetsAt permits kept maps
  | whenMethod may uses =>
      refine permits.meets_whenFound (fun table _ => searches_findMethod table _ _) ?_
      exact fun mapped table kept maps => (uses mapped).meetsAt permits kept maps
  | whenInherited uses =>
      refine permits.meets_whenFound (fun table _ => searches_lookUpMethod table _ _) ?_
      exact fun mapped table kept maps => (uses mapped).meetsAt permits kept maps
  | weaken built fewer ih => exact ih

/-- What is done for members meets the contract. -/
theorem Remapping.meets (permits : contract.Permits hierarchy decls) {sites : List LiteralSite}
    {step : Remap Unit} (remaps : Remapping hierarchy decls sites step) :
    Remap.Meets contract step fun _ => True := by
  induction remaps with
  | nothing => exact .pure trivial
  | noted result => exact .note trivial
  | linkage links => exact (links.meets permits).orElse fun _ _ => .report (permits.members _ _ _)
  | unread declared fails => exact .report (permits.classes _ declared _ (.inr fails))
  | resolving whenKnown whenUnknown ihKnown ihUnknown =>
      refine (permits.meets_resolveClass _).bind fun known _ => ?_
      cases known with
      | true => exact ihKnown
      | false => exact ihUnknown
  | seq start next ihStart ihNext => exact ihStart.bind fun _ _ => ihNext
  | weaken built fewer ih => exact ih

/-- What is done for a class meets the contract, and fails only if the `@Mixin` cannot be read. -/
theorem Classing.meets (permits : contract.Permits hierarchy decls) {decl : ClassDecl}
    {sites : List LiteralSite} {attempt : Attempt Unit}
    (remaps : Classing hierarchy decls decl sites attempt) :
    attempt.Meets contract decl.FailsToRead := by
  induction remaps with
  | refused fails => exact .refused (.inl fails)
  | privateTarget readBy =>
      intro table kept
      exact permits.meetsAt_of_rewording kept
        (rewording_remapPrivateTarget (permits.sound table kept) readBy)
  | lift remaps => exact .lift (remaps.meets permits)
  | seq start next ihStart ihNext => exact ihStart.seq ihNext
  | weaken built fewer ih => exact ih

/-! ## Classes and source files -/

namespace Contract.Permits

/-- Remapping a class meets every contract that permits it. -/
theorem meets_remapOne (permits : contract.Permits hierarchy decls) {decl : ClassDecl}
    (declared : decl ∈ decls) :
    Remap.Meets contract (remapOne hierarchy decl) fun _ => True :=
  ((classing_remapMixin declared).meets permits).orElse fun failure fails =>
    .report (permits.classes decl declared failure fails)

/-- Remapping some classes one after the other meets every contract that permits it. -/
theorem meets_each (permits : contract.Permits hierarchy decls) :
    Remap.Meets contract (Remap.each (remapOne hierarchy) decls) fun _ => True :=
  .each fun _ declared => permits.meets_remapOne declared

end Contract.Permits

end MixinLink
