import MixinLink.Proofs.Changes
import MixinLink.Proofs.LiteralSites
import MixinLink.Proofs.References
import MixinLink.Proofs.Runs

/-!
# What remapping is put together from

Whatever a mixin class is remapped by is put together from a few blocks: looking up a member and using its
mapped name, editing the literal of an injection, completing a class, refusing an annotation, reporting. The
predicates of this module say for each part of remapping how it is put together, and which literals it may
edit, in their order. A property of remapping is then shown for the blocks, and carried over by induction.

Main exports: `Scope`, `Use`, `Injecting`, `Linking`, `Remapping`, `Classing`, `injecting_remapInjection`,
`linking_remapFieldMark`, `linking_remapMethodMark`, `linking_remapSoftImplementation`,
`remapping_remapMembers`, `classing_remapMixin`.
-/

namespace MixinLink

variable {α : Type}

/-! ## The blocks -/

/-- The members that linkages may name, those among them that count as accessors, and where names may be
looked for: whether in the targets of the mixin, and which interfaces may be completed to that end. -/
structure Scope where
  fields : ClassName → FieldDecl → Prop
  methods : ClassName → MethodDecl → Prop
  accessors : MethodDecl → Prop
  targets : Prop
  interfaces : ClassName → Prop

/-- The declared members of some classes. -/
def Scope.declared (decls : List ClassDecl) : Scope where
  fields name field := ∃ decl ∈ decls, decl.name = name ∧ field ∈ decl.fields
  methods name method := ∃ decl ∈ decls, decl.name = name ∧ method ∈ decl.methods
  accessors := MethodDecl.IsMarkedAccessor
  targets := True
  interfaces _ := True

/-- Everything may be named that is found in the targets. -/
def Scope.inTargets : Scope where
  fields _ _ := True
  methods _ _ := True
  accessors _ := True
  targets := True
  interfaces _ := False

/-- Everything may be named that is found in an interface. -/
def Scope.inInterface (interface : ClassName) : Scope where
  fields _ _ := True
  methods _ _ := True
  accessors _ := True
  targets := False
  interfaces := (· = interface)

/-- How the mapped name of a member is used: by a member that stands for it, under the same lead or as its
accessor, or for the literal that names it. -/
inductive Use (scope : Scope) (name mapped : String) : List LiteralSite → Attempt Unit → Prop where
  | nameField {className : ClassName} {field : FieldDecl} {lead given : String}
      (may : scope.fields className field) (own : field.name.text = lead ++ name)
      (isGiven : given = lead ++ mapped) :
      Use scope name mapped [] (nameField className field given)
  | nameMethod {className : ClassName} {method : MethodDecl} {lead given : String}
      (may : scope.methods className method) (own : method.name.text = lead ++ name)
      (isGiven : given = lead ++ mapped) :
      Use scope name mapped [] (nameMethod className method given)
  | nameAccessor {className : ClassName} {method : MethodDecl} {accessor : AccessorName}
      (may : scope.methods className method) (marked : scope.accessors method)
      (parsed : AccessorName.parse? method.name.text = some accessor) (isMember : accessor.member = name) :
      Use scope name mapped [] (nameMethod className method (accessor.withMember mapped))
  | edit {literal : StringLiteral} {role : LiteralRole} (readable : role.reads literal.value = true)
      (isName : literal.value = name) :
      Use scope name mapped [⟨literal, role⟩] (liftM (Remap.edit literal mapped))

/-- How an injection is remapped. -/
inductive Injecting (hierarchy : Hierarchy) : List LiteralSite → Attempt Unit → Prop where
  | nothing : Injecting hierarchy [] (pure ())
  | log (level : Level) (text : String) : Injecting hierarchy [] (liftM (Remap.log level text))
  | classLiteral {literal : StringLiteral} {role : LiteralRole} {reference : ClassReference}
      (readable : role.reads literal.value = true) (written : reference.text = literal.value) :
      Injecting hierarchy [⟨literal, role⟩] (remapClassLiteral literal reference)
  | targetMethod {place : Place} {target : ParsedLiteral MemberReference}
      (readBy : target.ReadBy MemberReference.parse) :
      Injecting hierarchy [target.site .memberTarget] (remapTargetMethod place target)
  | pointMember {place : Place} {point : PointData} {literal : StringLiteral} {owner : ClassName}
      {member : MemberReference}
      (reads : PointReference.parse literal.value = .ok (.ofMember owner member)) :
      Injecting hierarchy [⟨literal, .pointTarget⟩] (remapPointMember place point literal owner member)
  | resolving {owner : ClassName} {sites : List LiteralSite} {known unknown : Attempt Unit}
      (whenKnown : Injecting hierarchy sites known) (whenUnknown : Injecting hierarchy sites unknown) :
      Injecting hierarchy sites (do if ← resolveClass hierarchy owner then known else unknown)
  | seq {sites more : List LiteralSite} {first rest : Attempt Unit} (start : Injecting hierarchy sites first)
      (next : Injecting hierarchy more rest) : Injecting hierarchy (sites ++ more) (do first; rest)
  | weaken {sites more : List LiteralSite} {attempt : Attempt Unit}
      (built : Injecting hierarchy sites attempt) (fewer : sites.Sublist more) :
      Injecting hierarchy more attempt

/-- How a linkage is remapped. Fields are always looked up with their types. -/
inductive Linking (hierarchy : Hierarchy) (scope : Scope) : List LiteralSite → Attempt Unit → Prop where
  | injection {sites : List LiteralSite} {attempt : Attempt Unit}
      (injects : Injecting hierarchy sites attempt) :
      Linking hierarchy scope sites attempt
  | refused (failure : Failure) : Linking hierarchy scope [] (Attempt.check (.error failure))
  | logged {sites : List LiteralSite} {rest : Attempt Unit} (noted : Noted Unit)
      (next : Linking hierarchy scope sites rest) :
      Linking hierarchy scope sites (do liftM (Remap.note noted); rest)
  | resolving {interface : ClassName} {sites : List LiteralSite} {known unknown : Attempt Unit}
      (may : scope.interfaces interface) (whenKnown : Linking hierarchy scope sites known)
      (whenUnknown : Linking hierarchy scope sites unknown) :
      Linking hierarchy scope sites (do if ← resolveClass hierarchy interface then known else unknown)
  | whenField {place : Place} {name : FieldName} {type : FieldType} {missing : String}
      {use : FieldName → Attempt Unit} {sites : List LiteralSite} (may : scope.targets)
      (uses : ∀ mapped, Use scope name.text mapped.text sites (use mapped)) :
      Linking hierarchy scope sites (whenFound (findField place ⟨name, some type⟩) missing use)
  | whenMethod {place : Place} {signature : MethodSignature} {missing : String}
      {use : MethodName → Attempt Unit} {sites : List LiteralSite} (may : scope.targets)
      (uses : ∀ mapped, Use scope signature.name.text mapped.text sites (use mapped)) :
      Linking hierarchy scope sites (whenFound (findMethod place signature) missing use)
  | whenInherited {interface : ClassName} {signature : MethodSignature} {missing : String}
      {use : MethodName → Attempt Unit} {sites : List LiteralSite}
      (uses : ∀ mapped, Use scope signature.name.text mapped.text sites (use mapped)) :
      Linking hierarchy scope sites (whenFound (lookUpMethod signature interface) missing use)
  | weaken {sites more : List LiteralSite} {attempt : Attempt Unit}
      (built : Linking hierarchy scope sites attempt) (fewer : sites.Sublist more) :
      Linking hierarchy scope more attempt

/-- How the members of mixin classes are remapped. A linkage that fails is reported for its member, and an
`@Implements` that cannot be read for its class. -/
inductive Remapping (hierarchy : Hierarchy) (decls : List ClassDecl) :
    List LiteralSite → Remap Unit → Prop where
  | nothing : Remapping hierarchy decls [] (pure ())
  | noted (result : Noted Unit) : Remapping hierarchy decls [] (Remap.note result)
  | linkage {place : Place} {sites : List LiteralSite} {attempt : Attempt Unit}
      (links : Linking hierarchy (.declared decls) sites attempt) :
      Remapping hierarchy decls sites (orReport place attempt)
  | unread {decl : ClassDecl} {failure : Failure} (declared : decl ∈ decls)
      (fails : InterfaceData.ofClass? decl = .error failure) :
      Remapping hierarchy decls [] (reportMalformed decl.name none failure)
  | resolving {target : ClassName} {sites : List LiteralSite} {known unknown : Remap Unit}
      (whenKnown : Remapping hierarchy decls sites known)
      (whenUnknown : Remapping hierarchy decls sites unknown) :
      Remapping hierarchy decls sites (do if ← resolveClass hierarchy target then known else unknown)
  | seq {sites more : List LiteralSite} {first rest : Remap Unit}
      (start : Remapping hierarchy decls sites first)
      (next : Remapping hierarchy decls more rest) :
      Remapping hierarchy decls (sites ++ more) (do first; rest)
  | weaken {sites more : List LiteralSite} {step : Remap Unit} (built : Remapping hierarchy decls sites step)
      (fewer : sites.Sublist more) : Remapping hierarchy decls more step

/-- How a class is remapped: only its `@Mixin` can be refused. -/
inductive Classing (hierarchy : Hierarchy) (decls : List ClassDecl) (decl : ClassDecl) :
    List LiteralSite → Attempt Unit → Prop where
  | refused {failure : Failure} (fails : (MixinData.ofClass? decl).run.value = .error failure) :
      Classing hierarchy decls decl [] (Attempt.check (.error failure))
  | privateTarget {target : ParsedLiteral ClassReference} (readBy : target.ReadBy ClassReference.parse) :
      Classing hierarchy decls decl [target.site .classTarget] (remapPrivateTarget target)
  | lift {sites : List LiteralSite} {step : Remap Unit} (remaps : Remapping hierarchy decls sites step) :
      Classing hierarchy decls decl sites (liftM step)
  | seq {sites more : List LiteralSite} {first rest : Attempt Unit}
      (start : Classing hierarchy decls decl sites first) (next : Classing hierarchy decls decl more rest) :
      Classing hierarchy decls decl (sites ++ more) (do first; rest)
  | weaken {sites more : List LiteralSite} {attempt : Attempt Unit}
      (built : Classing hierarchy decls decl sites attempt) (fewer : sites.Sublist more) :
      Classing hierarchy decls decl more attempt

/-! ## Regrouping -/

section Regrouping

variable {hierarchy : Hierarchy} {scope : Scope} {sites : List LiteralSite}

private theorem Injecting.idle (sites : List LiteralSite) : Injecting hierarchy sites (pure ()) :=
  .weaken .nothing (List.nil_sublist _)

/-- Parts of an injection one after the other. -/
theorem Injecting.each {attempt : α → Attempt Unit} {items : List α} {sitesOf : α → List LiteralSite}
    (built : ∀ item ∈ items, Injecting hierarchy (sitesOf item) (attempt item)) :
    Injecting hierarchy (items.flatMap sitesOf) (Attempt.each attempt items) := by
  induction items with
  | nil => exact .nothing
  | cons item rest ih =>
      rw [List.flatMap_cons]
      refine .seq (built item List.mem_cons_self) (ih fun other member => ?_)
      exact built other (List.mem_cons_of_mem _ member)

namespace Linking

private theorem idle (sites : List LiteralSite) : Linking hierarchy scope sites (pure ()) :=
  .injection (.idle sites)

/-- What is checked is refused, or the rest goes on with it. -/
theorem check {result : Checked α} {rest : α → Attempt Unit}
    (next : ∀ value, result = .ok value → Linking hierarchy scope sites (rest value)) :
    Linking hierarchy scope sites (Attempt.check result >>= rest) := by
  cases result with
  | ok value => exact next value rfl
  | error failure => exact .weaken (.refused failure) (List.nil_sublist _)

/-- What is read is refused, or the rest goes on with it. -/
theorem read {reading : Reading α} {rest : α → Attempt Unit}
    (next : ∀ value, reading.run.value = .ok value → Linking hierarchy scope sites (rest value)) :
    Linking hierarchy scope sites (Attempt.read reading >>= rest) := by
  cases outcome : reading.run.value with
  | ok value =>
      rw [Attempt.read_bind_of_ok outcome]
      exact .logged _ (next value outcome)
  | error failure =>
      rw [Attempt.read_bind_of_error outcome]
      exact .logged _ (.weaken (.refused failure) (List.nil_sublist _))

/-- The rest goes on with an explicit name, if the literal gives one. -/
theorem explicit {parse : String → Checked α} {literal : StringLiteral} {rest : Option α → Attempt Unit}
    (unread : Linking hierarchy scope sites (rest none))
    (next : ∀ name, parse literal.value = .ok name → Linking hierarchy scope sites (rest (some name))) :
    Linking hierarchy scope sites (liftM (explicitName parse literal) >>= rest) := by
  rw [explicitName_bind]
  refine .logged _ ?_
  cases parsed : (parseLiteral parse literal).value.parsed with
  | none => exact unread
  | some name =>
      have reads := (readBy_parseLiteral parse literal).parsed_eq_some.1 parsed
      rw [literal_parseLiteral] at reads
      exact next name reads

/-- What an accessor is for is told by a literal that is then edited, or by its name that is then
given anew. -/
theorem accessed {parse : String → Checked α} {text : α → String}
    (parsed : ∀ {written name}, parse written = .ok name → text name = written) {role : LiteralRole}
    (reads : ∀ written, role.reads written = (parse written).isOk) {place : Place} {method : MethodDecl}
    (may : scope.methods place.className method) (marked : scope.accessors method) (data : AccessorData)
    (untold : String) {rest : Option (α × AccessorUse) → Attempt Unit} (nothing : rest none = pure ())
    (found : ∀ name use sites,
      (∀ mapped, Use scope (text name) mapped sites (followMember place method use mapped)) →
        Linking hierarchy scope sites (rest (some (name, use)))) :
    Linking hierarchy scope (data.target.toList.map (⟨·, role⟩))
      (accessedMember parse method data untold >>= rest) := by
  unfold accessedMember
  cases data.target with
  | some literal =>
      rw [bind_assoc]
      refine .explicit ?_ fun name isName => ?_
      · rw [pure_bind, nothing]
        exact .idle _
      · rw [pure_bind]
        refine found name (.explicit literal) _ fun mapped => .edit ?_ (parsed isName).symm
        rw [reads, isName]
        rfl
  | none =>
      dsimp only
      cases isAccessor : AccessorName.parse? method.name.text with
      | none =>
          rw [bind_assoc]
          refine .logged _ ?_
          rw [pure_bind, nothing]
          exact .idle _
      | some accessor =>
          rw [bind_assoc]
          refine .check fun name isName => ?_
          rw [pure_bind]
          refine found name (.inflected accessor) _ fun mapped => ?_
          exact .nameAccessor may marked isAccessor (parsed isName).symm

end Linking

end Regrouping

/-! ## Linkages -/

section Linkages

variable {hierarchy : Hierarchy} {scope : Scope} {place : Place}

/-- The name of a shadow member is the lead and the name of what it stands for. -/
theorem ShadowData.exists_lead (shadow : ShadowData) (name : String) :
    ∃ lead, name = lead ++ (shadow.strip? name).getD name
      ∧ ∀ mapped, shadowName shadow (shadow.strip? name) mapped = lead ++ mapped := by
  unfold strip?
  split
  · exact ⟨"", by simp, by simp [shadowName]⟩
  · rename_i rest _ dropped
    refine ⟨shadow.lead, ?_, fun _ => rfl⟩
    have whole := Text.dropLead?_eq_some.1 dropped
    apply String.toList_injective
    simpa using whole
  · exact ⟨"", by simp, by simp [shadowName]⟩

section InTargets

variable (searches : scope.targets)

include searches

private theorem linking_remapShadowField {field : FieldDecl} (may : scope.fields place.className field)
    (shadow : ShadowData) : Linking hierarchy scope [] (remapShadowField place field shadow) := by
  obtain ⟨lead, own, given⟩ := shadow.exists_lead field.name.text
  refine .check fun name parsed => .whenField searches fun mapped => .nameField may ?_ (given mapped.text)
  rw [FieldName.parse_eq_ok.1 parsed]
  exact own

private theorem linking_remapShadowMethod {method : MethodDecl} (may : scope.methods place.className method)
    (shadow : ShadowData) : Linking hierarchy scope [] (remapShadowMethod place method shadow) := by
  obtain ⟨lead, own, given⟩ := shadow.exists_lead method.name.text
  refine .check fun name parsed => .whenMethod searches fun mapped => .nameMethod may ?_ (given mapped.text)
  rw [MethodName.parse_eq_ok.1 parsed]
  exact own

private theorem linking_remapOverwrite {method : MethodDecl} (may : scope.methods place.className method) :
    Linking hierarchy scope [] (remapOverwrite place method) :=
  .whenMethod searches fun _ => .nameMethod may String.empty_append.symm String.empty_append.symm

private theorem linking_remapFieldAccessor {method : MethodDecl} (may : scope.methods place.className method)
    (marked : scope.accessors method) (data : AccessorData) (isGetter : Bool) :
    Linking hierarchy scope (data.target.toList.map (⟨·, .fieldTarget⟩))
      (remapFieldAccessor place method data isGetter) := by
  refine .check fun type _ => ?_
  exact .accessed FieldName.parse_eq_ok.1 (fun _ => rfl) may marked data _ rfl fun _ _ _ uses =>
    .whenField searches fun mapped => uses mapped.text

private theorem linking_remapProxy {method : MethodDecl} (may : scope.methods place.className method)
    (marked : scope.accessors method) (data : AccessorData) :
    Linking hierarchy scope (data.target.toList.map (⟨·, .methodTarget⟩)) (remapProxy place method data) :=
  .accessed MethodName.parse_eq_ok.1 (fun _ => rfl) may marked data _ rfl fun _ _ _ uses =>
    .whenMethod searches fun mapped => uses mapped.text

end InTargets

private theorem linking_remapFactory (data : AccessorData) :
    Linking hierarchy scope (data.target.toList.map (⟨·, .classTarget⟩)) (remapFactory data) := by
  unfold remapFactory
  cases data.target with
  | none => exact .idle _
  | some literal =>
      dsimp only
      split
      · exact .idle _
      · refine .explicit (.idle _) fun reference reads => .injection (.classLiteral ?_ ?_)
        · simp [LiteralRole.reads, reads, Except.isOk, Except.toBool]
        · exact ClassReference.text_of_parse reads

/-- An injection point is a part of an injection. -/
theorem injecting_remapPoint {point : PointData} (readBy : point.ReadByParse) :
    Injecting hierarchy point.sites (remapPoint hierarchy place point) := by
  unfold remapPoint PointData.sites
  cases isTarget : point.target with
  | none => exact .nothing
  | some target =>
      dsimp only
      cases parsed : target.parsed with
      | none => exact .idle _
      | some reference =>
          have reads := (readBy target isTarget).parsed_eq_some.1 parsed
          cases reference with
          | ofClass reference =>
              refine .classLiteral ?_ (PointReference.text_of_parse reads)
              simp [LiteralRole.reads, reads, Except.isOk, Except.toBool]
          | ofMember owner member =>
              exact .resolving (.pointMember reads) (.weaken (.log _ _) (List.nil_sublist _))

/-- So is an injection as a whole. -/
theorem injecting_remapInjection {data : InjectData} (readBy : data.ReadByParse) :
    Injecting hierarchy data.sites (remapInjection hierarchy place data) := by
  have methods : Injecting hierarchy (data.methods.flatMap fun target => [target.site .memberTarget])
      (Attempt.each (remapTargetMethod place) data.methods) :=
    .each fun target member => .targetMethod (readBy.methods target member)
  rw [← List.map_eq_flatMap] at methods
  exact methods.seq (.each fun point member => injecting_remapPoint (readBy.points point member))

/-- A method that may implement an interface, if its scope allows to complete that one. -/
theorem linking_remapSoftImplementation {method : MethodDecl} {data : InterfaceData}
    (may : scope.methods place.className method) (mayComplete : scope.interfaces data.interface) :
    Linking hierarchy scope [] (remapSoftImplementation hierarchy place method data) := by
  unfold remapSoftImplementation
  split
  · exact .idle _
  · split
    · exact .idle _
    · exact .idle _
    · rename_i stripped _ dropped
      refine .resolving mayComplete ?_ (.idle _)
      refine .check fun name parsed => .whenInherited fun mapped => .nameMethod may ?_ rfl
      rw [MethodName.parse_eq_ok.1 parsed]
      apply String.toList_injective
      simpa using Text.dropLead?_eq_some.1 dropped

/-- A mark of a field, if its scope allows to search the targets. -/
theorem linking_remapFieldMark {field : FieldDecl} (searches : scope.targets)
    (may : scope.fields place.className field)
    (mark : Annotation) : Linking hierarchy scope [] (remapFieldMark place field mark) := by
  refine .check fun linkage _ => ?_
  split
  · exact .idle _
  · exact linking_remapShadowField searches may _
  · exact .refused _

private theorem linking_remapMethodLinkage {method : MethodDecl} {linkage : Linkage}
    (searches : scope.targets) (may : scope.methods place.className method)
    (marked : linkage.isAccessor = true → scope.accessors method)
    (readBy : ∀ data, linkage.injection? = some data → data.ReadByParse) :
    Linking hierarchy scope linkage.sites (remapMethodLinkage hierarchy place method linkage) := by
  have injection (data : InjectData) (injects : linkage.injection? = some data) :
      Linking hierarchy scope data.sites (remapInjection hierarchy place data) :=
    .injection (injecting_remapInjection (readBy data injects))
  cases linkage with
  | shadowField shadow => exact .refused _
  | shadowMethod shadow => exact linking_remapShadowMethod searches may shadow
  | overwrite => exact linking_remapOverwrite searches may
  | getter data => exact linking_remapFieldAccessor searches may (marked rfl) data true
  | setter data => exact linking_remapFieldAccessor searches may (marked rfl) data false
  | proxy data => exact linking_remapProxy searches may (marked rfl) data
  | factory data => exact linking_remapFactory data
  | inject data => exact injection data rfl
  | redirect data => exact injection data rfl
  | modifyConstant data => exact injection data rfl
  | modifyVariable data => exact injection data rfl

/-- A mark of a method, if its scope allows to search the targets, and to name accessors where it is
the mark of one. -/
theorem linking_remapMethodMark {method : MethodDecl} {mark : Annotation} (searches : scope.targets)
    (may : scope.methods place.className method)
    (marked : mark.name = AnnotationName.accessor ∨ mark.name = AnnotationName.invoker →
      scope.accessors method) :
    Linking hierarchy scope (method.markSites mark) (remapMethodMark hierarchy place method mark) := by
  refine .read fun linkage read => ?_
  cases linkage with
  | none => exact .idle _
  | some linkage =>
      have readFrom := Linkage.readFrom_ofMethod? read
      have links : Linking hierarchy scope linkage.sites
          (remapMethodLinkage hierarchy place method linkage) :=
        linking_remapMethodLinkage searches may (fun isAccessor => marked (readFrom.accessor isAccessor))
          readFrom.injection
      exact .logged _ (links.weaken (Linkage.sites_sublist_markSites read))

end Linkages

/-! ## Members and classes -/

section Classes

variable {hierarchy : Hierarchy} {decls : List ClassDecl} {decl : ClassDecl} {place : Place}
  {sites : List LiteralSite}

namespace Remapping

/-- Parts of remapping one after the other. -/
theorem each {step : α → Remap Unit} {items : List α} {sitesOf : α → List LiteralSite}
    (built : ∀ item ∈ items, Remapping hierarchy decls (sitesOf item) (step item)) :
    Remapping hierarchy decls (items.flatMap sitesOf) (Remap.each step items) := by
  induction items with
  | nil => exact .nothing
  | cons item rest ih =>
      rw [List.flatMap_cons]
      refine .seq (built item List.mem_cons_self) (ih fun other member => ?_)
      exact built other (List.mem_cons_of_mem _ member)

/-- Steps for all items that edit no literal. -/
theorem eachSilent {step : α → Remap Unit} {items : List α}
    (built : ∀ item ∈ items, Remapping hierarchy decls [] (step item)) :
    Remapping hierarchy decls [] (Remap.each step items) := by
  have all := each built
  rwa [show items.flatMap (fun _ => ([] : List LiteralSite)) = [] by simp] at all

/-- The rest goes on with the interfaces of a class, with none if they cannot be read. -/
theorem implementing (declared : decl ∈ decls) {rest : List InterfaceData → Remap Unit}
    (next : ∀ interfaces, Remapping hierarchy decls sites (rest interfaces)) :
    Remapping hierarchy decls sites (softInterfaces decl >>= rest) := by
  unfold softInterfaces
  cases read : InterfaceData.ofClass? decl with
  | ok interfaces =>
      rw [pure_bind]
      exact next _
  | error failure =>
      rw [bind_assoc]
      exact .seq (.unread declared read) (next [])

/-- The rest goes on with the targets that something is known about. -/
theorem knowing {className : ClassName} (targets : List ClassName) {rest : List ClassName → Remap Unit}
    (next : ∀ known, Remapping hierarchy decls sites (rest known)) :
    Remapping hierarchy decls sites (knownTargets hierarchy className targets >>= rest) := by
  induction targets generalizing rest with
  | nil =>
      rw [knownTargets, pure_bind]
      exact next []
  | cons target others ih =>
      have split : knownTargets hierarchy className (target :: others) >>= rest = (do
          if ← resolveClass hierarchy target then
            knownTargets hierarchy className others >>= fun known => rest (target :: known)
          else
            Remap.log .trace s!"{className}: nothing known about target {target}"
            knownTargets hierarchy className others >>= rest) := by
        rw [knownTargets, bind_assoc]
        refine bind_congr fun known => ?_
        cases known with
        | true => simp
        | false => simp
      rw [split]
      exact .resolving (ih fun known => next (target :: known)) (.seq (.noted _) (ih next))

end Remapping

namespace Classing

/-- Parts of remapping a class one after the other. -/
theorem each {attempt : α → Attempt Unit} {items : List α} {sitesOf : α → List LiteralSite}
    (built : ∀ item ∈ items, Classing hierarchy decls decl (sitesOf item) (attempt item)) :
    Classing hierarchy decls decl (items.flatMap sitesOf) (Attempt.each attempt items) := by
  induction items with
  | nil => exact .lift .nothing
  | cons item rest ih =>
      rw [List.flatMap_cons]
      refine .seq (built item List.mem_cons_self) (ih fun other member => ?_)
      exact built other (List.mem_cons_of_mem _ member)

/-- The rest cannot fail, and goes on with the targets that something is known about. -/
theorem knowing {className : ClassName} (targets : List ClassName) {rest : List ClassName → Attempt Unit}
    (next : ∀ known, ∃ step, rest known = liftM step ∧ Remapping hierarchy decls sites step) :
    Classing hierarchy decls decl sites (liftM (knownTargets hierarchy className targets) >>= rest) := by
  choose step isStep built using next
  rw [funext isStep, ← Attempt.lift_bind]
  exact .lift (.knowing targets built)

end Classing

/-- Remapping a field that is declared. -/
theorem remapping_remapField {field : FieldDecl} (declared : decl ∈ decls)
    (here : place.className = decl.name) (member : field ∈ decl.fields) :
    Remapping hierarchy decls [] (remapField place field) := by
  have may : (Scope.declared decls).fields place.className field := ⟨decl, declared, here.symm, member⟩
  exact .eachSilent fun mark _ => .linkage (linking_remapFieldMark trivial may mark)

/-- What is done for an annotation of a declared method. -/
theorem remapping_remapMethodMark {method : MethodDecl} {mark : Annotation} (declared : decl ∈ decls)
    (here : place.className = decl.name) (member : method ∈ decl.methods)
    (isMark : mark ∈ method.annotations) :
    Remapping hierarchy decls (method.markSites mark)
      (orReport place (remapMethodMark hierarchy place method mark)) :=
  .linkage (linking_remapMethodMark trivial ⟨decl, declared, here.symm, member⟩
    fun marks => ⟨mark, isMark, marks⟩)

/-- Remapping a method that is declared, with the literals of all its marks. -/
theorem remapping_remapMethod {method : MethodDecl} (interfaces : List InterfaceData)
    (declared : decl ∈ decls) (here : place.className = decl.name) (member : method ∈ decl.methods) :
    Remapping hierarchy decls (method.annotations.flatMap method.markSites)
      (remapMethod hierarchy place interfaces method) := by
  rw [← List.append_nil (method.annotations.flatMap method.markSites)]
  refine .seq (.each fun mark isMark => remapping_remapMethodMark declared here member isMark) ?_
  exact .eachSilent fun data _ =>
    .linkage (linking_remapSoftImplementation ⟨decl, declared, here.symm, member⟩ trivial)

/-- Remapping all members of a class that is declared. -/
theorem remapping_remapMembers (targets : List ClassName) (declared : decl ∈ decls) :
    Remapping hierarchy decls
      (decl.methods.flatMap fun method => method.annotations.flatMap method.markSites)
      (remapMembers hierarchy decl targets) := by
  have fields : Remapping hierarchy decls []
      (Remap.each (fun field => remapField ⟨decl.name, field.signature.text, targets⟩ field) decl.fields) :=
    .eachSilent fun field member => remapping_remapField declared rfl member
  refine .implementing declared fun interfaces => fields.seq ?_
  exact .each fun method member => remapping_remapMethod interfaces declared rfl member

/-- Remapping a mixin class that is declared, with all its literals. -/
theorem classing_remapMixin (declared : decl ∈ decls) :
    Classing hierarchy decls decl decl.literalSites (remapMixin hierarchy decl) := by
  unfold remapMixin
  cases read : (MixinData.ofClass? decl).run.value with
  | error failure =>
      rw [Attempt.read_bind_of_error read]
      exact .weaken (.seq (.lift (.noted _)) (.refused read)) (List.nil_sublist _)
  | ok mixin =>
      rw [Attempt.read_bind_of_ok read]
      have logged : Classing hierarchy decls decl []
          (liftM (Remap.note ⟨(), (MixinData.ofClass? decl).run.log⟩)) := .lift (.noted _)
      refine logged.seq ?_
      cases mixin with
      | none => exact .weaken (.lift .nothing) (List.nil_sublist _)
      | some mixin =>
          have readBy := MixinData.readBy_ofClass? read
          have privates : Classing hierarchy decls decl
              (mixin.privateTargets.flatMap fun target => [target.site .classTarget])
              (Attempt.each remapPrivateTarget mixin.privateTargets) :=
            .each fun target member => .privateTarget (readBy target member)
          rw [← List.map_eq_flatMap, MixinData.sites_of_ofClass? read] at privates
          refine privates.seq ?_
          refine .knowing _ fun known => ?_
          split
          · exact ⟨_, rfl, .weaken (.noted _) (List.nil_sublist _)⟩
          · exact ⟨_, rfl, remapping_remapMembers _ declared⟩

end Classes

end MixinLink
