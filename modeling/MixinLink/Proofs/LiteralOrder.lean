import MixinLink.Proofs.BuildingBlocks
import MixinLink.Proofs.Resolution

/-!
# Edits follow the literals of a source file

Remapping edits some of the literals that a source file lists, each at most once and in their order, to
another text. A literal that its position cannot read is not among them.

Main exports: `EditsAmong`, `Remap.EditsAmong`, `Attempt.EditsAmong`, `Linking.editsAmong`,
`Remapping.editsAmong`, `editsAmong_remapUnit`.
-/

namespace MixinLink

variable {α β : Type}

/-! ## Edits of listed literals -/

/-- The place and the value of the literal that an edit replaces. -/
def LiteralEdit.origin (edit : LiteralEdit) : Span × String :=
  (edit.span, edit.before)

/-- The edits change some of the literals that can be read, in the order of the list, each to another
text. -/
structure EditsAmong (sites : List LiteralSite) (edits : List LiteralEdit) : Prop where
  ordered : (edits.map LiteralEdit.origin).Sublist
    ((sites.filter LiteralSite.isReadable).map LiteralSite.origin)
  changed : ∀ edit ∈ edits, edit.after ≠ edit.before

namespace EditsAmong

variable {sites more : List LiteralSite} {edits others : List LiteralEdit}

/-- Making no edits is always possible. -/
theorem nil (sites : List LiteralSite) : EditsAmong sites [] :=
  ⟨List.nil_sublist _, by simp⟩

/-- Edits of some literals and then of others. -/
theorem append (first : EditsAmong sites edits) (second : EditsAmong more others) :
    EditsAmong (sites ++ more) (edits ++ others) := by
  refine ⟨?_, fun edit member => ?_⟩
  · rw [List.map_append, List.filter_append, List.map_append]
    exact first.ordered.append second.ordered
  · exact (List.mem_append.1 member).elim (first.changed edit) (second.changed edit)

/-- There may be more literals around. -/
theorem mono (among : EditsAmong sites edits) (fewer : sites.Sublist more) : EditsAmong more edits :=
  ⟨among.ordered.trans ((fewer.filter _).map _), among.changed⟩

/-- Without literals there are no edits. -/
theorem eq_nil (among : EditsAmong [] edits) : edits = [] :=
  List.map_eq_nil_iff.1 (List.sublist_nil.1 among.ordered)

end EditsAmong

/-- From every table, the step edits some of the literals. -/
def Remap.EditsAmong (sites : List LiteralSite) (step : Remap α) : Prop :=
  ∀ table, MixinLink.EditsAmong sites (step table).output.edits

/-- From every table, the attempt edits some of the literals. -/
def Attempt.EditsAmong (sites : List LiteralSite) (attempt : Attempt α) : Prop :=
  Remap.EditsAmong sites attempt.run

namespace Remap.EditsAmong

variable {sites more : List LiteralSite}

/-- A step that makes no edits at all. -/
theorem silent {step : Remap α} (silent : ∀ table, (step table).output.edits = []) :
    EditsAmong sites step := by
  intro table
  rw [silent table]
  exact .nil sites

/-- One step after the other. -/
theorem bind {first : Remap α} {rest : α → Remap β} (start : EditsAmong sites first)
    (next : ∀ value, EditsAmong more (rest value)) : EditsAmong (sites ++ more) (first >>= rest) := by
  intro table
  rw [Remap.run_bind]
  exact (start table).append (next _ _)

/-- A step without edits in front adds no literals. -/
theorem bindSilent {first : Remap α} {rest : α → Remap β} (start : EditsAmong [] first)
    (next : ∀ value, EditsAmong sites (rest value)) : EditsAmong sites (first >>= rest) :=
  start.bind next

/-- Steps for all items of a list. -/
theorem each {step : α → Remap Unit} {items : List α} {sitesOf : α → List LiteralSite}
    (each : ∀ item ∈ items, EditsAmong (sitesOf item) (step item)) :
    EditsAmong (items.flatMap sitesOf) (Remap.each step items) := by
  induction items with
  | nil => exact silent fun _ => rfl
  | cons item rest ih =>
      rw [List.flatMap_cons]
      refine (each item List.mem_cons_self).bind fun _ => ih fun other member => ?_
      exact each other (List.mem_cons_of_mem _ member)

/-- Steps for all items of a list that make no edits. -/
theorem eachSilent {step : α → Remap Unit} {items : List α}
    (each : ∀ item ∈ items, EditsAmong [] (step item)) : EditsAmong [] (Remap.each step items) := by
  have all := EditsAmong.each each
  rwa [show items.flatMap (fun _ => ([] : List LiteralSite)) = [] by simp] at all

/-- A literal that can be read is edited at most once. -/
theorem edit {literal : StringLiteral} {role : LiteralRole} (readable : role.reads literal.value = true)
    (after : String) : EditsAmong [⟨literal, role⟩] (Remap.edit literal after) := by
  intro table
  unfold Remap.edit LiteralEdit.plan?
  by_cases same : literal.value = after
  · rw [if_pos same]
    exact .nil _
  · rw [if_neg same]
    refine ⟨?_, ?_⟩
    · simp [LiteralSite.isReadable, readable, LiteralEdit.origin, LiteralSite.origin]
    · simpa using Ne.symm same

/-- Completing a class makes no edits. -/
theorem resolveClass (hierarchy : Hierarchy) (name : ClassName) :
    EditsAmong [] (resolveClass hierarchy name) := by
  refine silent fun table => ?_
  rw [output_resolveClass]
  rfl

end Remap.EditsAmong

namespace Attempt.EditsAmong

variable {sites more : List LiteralSite}

/-- An attempt that makes no edits at all. -/
theorem silent {attempt : Attempt α} (silent : ∀ table, (attempt.run table).output.edits = []) :
    EditsAmong sites attempt :=
  Remap.EditsAmong.silent silent

/-- A step that cannot fail. -/
theorem lift {step : Remap α} (among : Remap.EditsAmong sites step) :
    EditsAmong sites (liftM step : Attempt α) := by
  intro table
  rw [Attempt.run_lift, Output.edits_append, Output.edits_empty, List.append_nil]
  exact among table

/-- There may be more literals around. -/
theorem mono {attempt : Attempt α} (among : EditsAmong sites attempt) (fewer : sites.Sublist more) :
    EditsAmong more attempt :=
  fun table => (among table).mono fewer

/-- One attempt after the other. -/
theorem bind {first : Attempt α} {rest : α → Attempt β} (start : EditsAmong sites first)
    (next : ∀ value, EditsAmong more (rest value)) : EditsAmong (sites ++ more) (first >>= rest) := by
  intro table
  cases outcome : (first.run table).value with
  | error failure =>
      rw [Attempt.run_bind_of_error outcome, Output.edits_append]
      exact (start table).append (.nil more)
  | ok value =>
      rw [Attempt.run_bind_of_ok outcome, Output.edits_append]
      exact (start table).append (next value _)

/-- An attempt without edits in front adds no literals. -/
theorem bindSilent {first : Attempt α} {rest : α → Attempt β} (start : EditsAmong [] first)
    (next : ∀ value, EditsAmong sites (rest value)) : EditsAmong sites (first >>= rest) :=
  start.bind next

/-- A failure can be dealt with without edits. -/
theorem orElse {attempt : Attempt Unit} {handle : Failure → Remap Unit} (among : EditsAmong sites attempt)
    (handled : ∀ failure, Remap.EditsAmong [] (handle failure)) :
    Remap.EditsAmong sites (attempt.orElse handle) := by
  have run : Remap.EditsAmong sites attempt.run := among
  rw [← List.append_nil sites]
  refine run.bind fun result => ?_
  cases result with
  | ok _ => exact .silent fun _ => rfl
  | error failure => exact handled failure

/-- A choice among targets makes no edits if the look-ups make none. -/
theorem chooseFrom [DecidableEq α] [ToString α] {place : Place}
    {lookUp : ClassName → Attempt (Resolved α)} (among : ∀ target, EditsAmong [] (lookUp target))
    (targets : List ClassName) (choice : Choice α) :
    EditsAmong [] (MixinLink.chooseFrom place lookUp choice targets) := by
  induction targets generalizing choice with
  | nil => exact silent fun _ => rfl
  | cons target rest ih =>
      refine (among target).bindSilent fun resolved => ?_
      cases resolved with
      | missing => exact ih choice
      | ambiguous candidates => exact ih _
      | found value =>
          cases choice.chosen with
          | none => exact ih _
          | some first =>
              simp only
              split
              · exact (lift (.silent fun _ => rfl)).bindSilent fun _ => ih choice
              · exact ih choice

/-- Looking something up in all targets makes no edits if the look-ups make none. -/
theorem acrossTargets [DecidableEq α] [ToString α] {place : Place}
    {lookUp : ClassName → Attempt (Resolved α)} (among : ∀ target, EditsAmong [] (lookUp target)) :
    EditsAmong [] (MixinLink.acrossTargets place lookUp) :=
  (chooseFrom among place.targets ⟨none, none⟩).bindSilent fun _ => silent fun _ => rfl

/-- What was found may be used to edit literals. -/
theorem whenFound {find : Attempt (Resolved α)} {missing : String} {use : α → Attempt Unit}
    (start : EditsAmong [] find) (uses : ∀ value, EditsAmong sites (use value)) :
    EditsAmong sites (MixinLink.whenFound find missing use) := by
  refine start.bindSilent fun resolved => ?_
  cases resolved with
  | found value => exact uses value
  | missing => exact silent fun _ => rfl
  | ambiguous candidates => exact silent fun _ => rfl

end Attempt.EditsAmong

/-! ## Single literals -/

section Literals

variable {place : Place}

private theorem reads_of_parsed {parse : String → Checked α} {role : LiteralRole}
    (reads : ∀ text, role.reads text = (parse text).isOk) {target : ParsedLiteral α} {value : α}
    (readBy : target.ReadBy parse) (parsed : target.parsed = some value) :
    role.reads target.literal.value = true := by
  rw [reads, readBy.parsed_eq_some.1 parsed]
  rfl

private theorem editsAmong_table : Attempt.EditsAmong [] (liftM Remap.table : Attempt Table) :=
  .silent fun _ => rfl

private theorem editsAmong_check (result : Checked α) : Attempt.EditsAmong [] (Attempt.check result) :=
  .silent fun _ => rfl

/-- Looking up a member makes no edits. -/
theorem editsAmong_resolveMember (owner : ClassName) (member : MemberReference) :
    Attempt.EditsAmong [] (resolveMember owner member) := by
  refine .silent fun table => ?_
  rw [(run_resolveMember owner member table).1]
  rfl

/-- A literal that names a class. -/
theorem editsAmong_remapClassLiteral {literal : StringLiteral} {role : LiteralRole}
    (readable : role.reads literal.value = true) (reference : ClassReference) :
    Attempt.EditsAmong [⟨literal, role⟩] (remapClassLiteral literal reference) := by
  refine editsAmong_table.bindSilent fun table => (editsAmong_check _).bindSilent fun mapped => ?_
  cases mapped with
  | none => exact .silent fun _ => rfl
  | some mapped => exact .lift (.edit readable _)

/-- A target method of an injection. -/
theorem editsAmong_remapTargetMethod {target : ParsedLiteral MemberReference}
    (readBy : target.ReadBy MemberReference.parse) :
    Attempt.EditsAmong [target.site .memberTarget] (remapTargetMethod place target) := by
  unfold remapTargetMethod
  cases parsed : target.parsed with
  | none => exact .silent fun _ => rfl
  | some member =>
      refine .bindSilent
        (.acrossTargets fun owner => editsAmong_resolveMember owner member) fun resolved => ?_
      cases resolved with
      | found image => exact .lift (.edit (reads_of_parsed (fun _ => rfl) readBy parsed) _)
      | ambiguous candidates => exact .silent fun _ => rfl
      | missing => exact .silent fun _ => rfl

/-- An injection point at a member of a class. -/
theorem editsAmong_remapPointMember {point : PointData} {literal : StringLiteral} {owner : ClassName}
    {member : MemberReference} (readable : LiteralRole.pointTarget.reads literal.value = true) :
    Attempt.EditsAmong [⟨literal, .pointTarget⟩] (remapPointMember place point literal owner member) := by
  refine (editsAmong_resolveMember owner member).bindSilent fun resolved => ?_
  cases resolved with
  | found image =>
      refine editsAmong_table.bindSilent fun table => (editsAmong_check _).bindSilent fun mapped => ?_
      exact .lift (.edit readable _)
  | ambiguous candidates => exact .silent fun _ => rfl
  | missing => exact .silent fun _ => rfl

/-- A string that names a target of a mixin. -/
theorem editsAmong_remapPrivateTarget {target : ParsedLiteral ClassReference}
    (readBy : target.ReadBy ClassReference.parse) :
    Attempt.EditsAmong [target.site .classTarget] (remapPrivateTarget target) := by
  unfold remapPrivateTarget
  cases parsed : target.parsed with
  | none => exact .silent fun _ => rfl
  | some reference =>
      refine editsAmong_table.bindSilent fun table => ?_
      split
      · exact .silent fun _ => rfl
      · exact (editsAmong_check _).bindSilent fun mapped =>
          .lift (.edit (reads_of_parsed (fun _ => rfl) readBy parsed) _)

end Literals

/-! ## The blocks -/

section Blocks

variable {hierarchy : Hierarchy} {decls : List ClassDecl} {sites : List LiteralSite}

/-- Injections edit some of their literals. -/
theorem Injecting.editsAmong {attempt : Attempt Unit} (injects : Injecting hierarchy sites attempt) :
    Attempt.EditsAmong sites attempt := by
  induction injects with
  | nothing => exact .silent fun _ => rfl
  | log level text => exact .silent fun _ => rfl
  | classLiteral readable written => exact editsAmong_remapClassLiteral readable _
  | targetMethod readBy => exact editsAmong_remapTargetMethod readBy
  | pointMember reads =>
      refine editsAmong_remapPointMember ?_
      simp [LiteralRole.reads, reads, Except.isOk, Except.toBool]
  | resolving whenKnown whenUnknown ihKnown ihUnknown =>
      refine .bindSilent (.lift (.resolveClass hierarchy _)) fun known => ?_
      cases known with
      | true => exact ihKnown
      | false => exact ihUnknown
  | seq start next ihStart ihNext => exact ihStart.bind fun _ => ihNext
  | weaken built fewer ih => exact ih.mono fewer

/-- A mapped name is used for a literal or for a member. -/
theorem Use.editsAmong {scope : Scope} {name mapped : String} {attempt : Attempt Unit}
    (use : Use scope name mapped sites attempt) : Attempt.EditsAmong sites attempt := by
  cases use with
  | nameField => exact (editsAmong_check _).bindSilent fun _ => .silent fun _ => rfl
  | nameMethod => exact (editsAmong_check _).bindSilent fun _ => .silent fun _ => rfl
  | nameAccessor => exact (editsAmong_check _).bindSilent fun _ => .silent fun _ => rfl
  | edit readable isName => exact .lift (.edit readable mapped)

/-- Linkages edit some of their literals. -/
theorem Linking.editsAmong {scope : Scope} {attempt : Attempt Unit}
    (links : Linking hierarchy scope sites attempt) : Attempt.EditsAmong sites attempt := by
  induction links with
  | injection injects => exact injects.editsAmong
  | refused failure => exact .silent fun _ => rfl
  | logged noted next ih => exact .bindSilent (.lift (.silent fun _ => rfl)) fun _ => ih
  | resolving may whenKnown whenUnknown ihKnown ihUnknown =>
      refine .bindSilent (.lift (.resolveClass hierarchy _)) fun known => ?_
      cases known with
      | true => exact ihKnown
      | false => exact ihUnknown
  | whenField may uses =>
      exact .whenFound (.acrossTargets fun _ => .silent fun _ => rfl) fun mapped => (uses mapped).editsAmong
  | whenMethod may uses =>
      exact .whenFound (.acrossTargets fun _ => .silent fun _ => rfl) fun mapped => (uses mapped).editsAmong
  | whenInherited uses => exact .whenFound (.silent fun _ => rfl) fun mapped => (uses mapped).editsAmong
  | weaken built fewer ih => exact ih.mono fewer

/-- What is done for members edits some of their literals. -/
theorem Remapping.editsAmong {step : Remap Unit} (remaps : Remapping hierarchy decls sites step) :
    Remap.EditsAmong sites step := by
  induction remaps with
  | nothing => exact .silent fun _ => rfl
  | noted result => exact .silent fun _ => rfl
  | linkage links => exact links.editsAmong.orElse fun _ => .silent fun _ => rfl
  | unread declared fails => exact .silent fun _ => rfl
  | resolving whenKnown whenUnknown ihKnown ihUnknown =>
      refine .bindSilent (.resolveClass hierarchy _) fun known => ?_
      cases known with
      | true => exact ihKnown
      | false => exact ihUnknown
  | seq start next ihStart ihNext => exact ihStart.bind fun _ => ihNext
  | weaken built fewer ih => exact fun table => (ih table).mono fewer

/-- What is done for a class edits some of its literals. -/
theorem Classing.editsAmong {decl : ClassDecl} {attempt : Attempt Unit}
    (remaps : Classing hierarchy decls decl sites attempt) : Attempt.EditsAmong sites attempt := by
  induction remaps with
  | refused fails => exact .silent fun _ => rfl
  | privateTarget readBy => exact editsAmong_remapPrivateTarget readBy
  | lift remaps => exact .lift remaps.editsAmong
  | seq start next ihStart ihNext => exact ihStart.bind fun _ => ihNext
  | weaken built fewer ih => exact ih.mono fewer

end Blocks

/-! ## Source files -/

/-- The edits of a source file are made to some of its literals that can be read, in their order, and each
changes the text. -/
theorem editsAmong_remapUnit (hierarchy : Hierarchy) (table : Table) (unit : SourceUnit) :
    EditsAmong unit.literalSites (remapUnit hierarchy table unit).value.1.edits := by
  have walked : Remap.EditsAmong unit.literalSites (Remap.each (remapOne hierarchy) unit.walk) :=
    .each fun decl declared => (classing_remapMixin declared).editsAmong.orElse fun _ => .silent fun _ => rfl
  exact walked table

end MixinLink
