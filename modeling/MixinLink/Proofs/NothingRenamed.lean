import MixinLink.Proofs.AccessorNames
import MixinLink.Proofs.ClassLiterals
import MixinLink.Proofs.KeptNames
import MixinLink.Proofs.Permissions
import MixinLink.Proofs.Reachable

/-!
# Remapping with a table that renames nothing

Where every class, field and method keeps its name, remapping a source file finds nothing to edit and no
two results that differ, and every name that it gives is the name that the member has already. The one
exception are accessors with the marker of merged methods in their names: their names are made again
without it.

Main exports: `keepingNames`, `SourceUnit.AccessorsUnmerged`, `keepingNames_permits`,
`remapUnit_of_keepsNames`.
-/

namespace MixinLink

/-- The diagnostic is about an annotation that could not be read or used. -/
def Diagnostic.isMalformedLinkage : Diagnostic → Bool
  | malformedLinkage _ _ _ => true
  | _ => false

/-- All names are kept, nothing is edited, and nothing is reported but annotations that could not be read
or used. -/
def keepingNames : Contract where
  kept table := table.Sound ∧ table.KeepsNames
  edits _ := False
  reports diagnostic := diagnostic.isMalformedLinkage = true

/-- The name of an accessor has no marker of merged methods. -/
def MethodDecl.IsUnmerged (method : MethodDecl) : Prop :=
  ¬AccessorName.mergeMarker <:+: method.name.text.toList

/-- No accessor method of some classes has the marker of merged methods in its name. -/
def ClassDecl.AccessorsUnmerged (decls : List ClassDecl) : Prop :=
  ∀ decl ∈ decls, ∀ method ∈ decl.methods, method.IsMarkedAccessor → method.IsUnmerged

/-- No accessor method of the source file has the marker of merged methods in its name. -/
def SourceUnit.AccessorsUnmerged (unit : SourceUnit) : Prop :=
  ClassDecl.AccessorsUnmerged unit.walk

namespace Table.KeepsNames

variable {table after : Table} {hierarchy : Hierarchy} {decls : List ClassDecl}

/-- Every name that remapping gives is the name that the member has. -/
theorem change (keeps : table.KeepsNames) (unmerged : ClassDecl.AccessorsUnmerged decls)
    (step : Change hierarchy decls table after) : after.KeepsNames := by
  cases step with
  | complete name => exact keeps.complete hierarchy name
  | lookUp owner signature => exact keeps.resolveField owner signature
  | @nameField decl field _ _ _ named _ _ maps own given =>
      have isOwn : named = field.name := by
        apply FieldName.ext_text
        rw [given, keeps.mapsMember maps, own]
      subst isOwn
      exact keeps.update fun _ entryKeeps => entryKeeps.mapField field.signature
  | @nameMethod decl method _ _ _ named _ _ maps own given =>
      have isOwn : named = method.name := by
        apply MethodName.ext_text
        rw [given, keeps.mapsMember maps, own]
      subst isOwn
      exact keeps.update fun _ entryKeeps => entryKeeps.mapMethod method.signature
  | @nameAccessor decl method accessor _ named declared member marked parsed maps given =>
      have isOwn : named = method.name := by
        apply MethodName.ext_text
        rw [given, keeps.mapsMember maps]
        exact AccessorName.withMember_member parsed (unmerged decl declared method member marked)
      subst isOwn
      exact keeps.update fun _ entryKeeps => entryKeeps.mapMethod method.signature

/-- The image of a reference is the reference. -/
theorem memberAnswer (keeps : table.KeepsNames) (sound : table.Sound) {owner : ClassName}
    {member image : MemberReference} (answer : table.memberAnswer owner member = .ok (.found image)) :
    image = member := by
  cases member with
  | bare name =>
      obtain ⟨mapped, rfl, maps⟩ := sound.found_bare answer
      rw [MethodName.ext_text (keeps.mapsMember maps)]
  | method signature =>
      obtain ⟨mapped, type, rfl, isType, maps⟩ := Table.found_method answer
      rw [keeps.mapMethodType sound, Except.ok.injEq] at isType
      rw [MethodName.ext_text (keeps.mapsMember maps), ← isType]
  | field name type =>
      obtain ⟨mapped, mappedType, rfl, isType, maps⟩ := Table.found_field answer
      rw [keeps.mapFieldType sound, Except.ok.injEq] at isType
      rw [FieldName.ext_text (keeps.mapsMember maps), ← isType]

/-- The table has no other text to offer for a literal. -/
theorem rewords (keeps : table.KeepsNames) (sound : table.Sound) {text mapped : String}
    (rewords : table.Rewords text mapped) : mapped = text := by
  cases rewords with
  | name maps => exact keeps.mapsMember maps
  | ofClass maps =>
      rw [keeps.mapClass sound, Except.ok.injEq] at maps
      rw [← maps]
      rfl
  | @entry _ reference entry below _ reads found maps =>
      rw [keeps.mapClass sound, Except.ok.injEq] at maps
      rw [sound.literalNode?_eq, ClassReference.parseDotted_of_parse reads] at found
      have isEntry : table.find? reference.name = some entry := by
        simpa [Table.find?, Except.toOption] using congrArg (Option.map Prod.fst) found
      rw [← maps, sound.name_of_find? isEntry]
      exact ClassReference.text_of_parse reads
  | member reads answer =>
      rw [keeps.memberAnswer sound answer]
      exact (MemberReference.parse_eq_ok.1 reads).2
  | pointMember reads answer maps =>
      rw [keeps.mapClass sound, Except.ok.injEq] at maps
      rw [keeps.memberAnswer sound answer, ← maps]
      exact PointReference.text_of_parse reads

/-- Members of one name are mapped in one way. -/
theorem not_disagrees (keeps : table.KeepsNames) : ¬table.Disagrees := by
  rintro ⟨name, first, second, apart, maps, otherMaps⟩
  exact apart ((keeps.mapsMember maps).trans (keeps.mapsMember otherMaps).symm)

end Table.KeepsNames

/-- Remapping keeps the names that a table keeps. -/
theorem keepingNames_permits (hierarchy : Hierarchy) {decls : List ClassDecl}
    (unmerged : ClassDecl.AccessorsUnmerged decls) : keepingNames.Permits hierarchy decls where
  sound _ kept := kept.1
  changes _ _ step kept := ⟨kept.1.change step, kept.2.change unmerged step⟩
  edits _ _ _ kept rewords differs := differs (kept.2.rewords kept.1 rewords).symm
  disagreements _ _ kept disagrees _ := absurd disagrees kept.2.not_disagrees
  members _ _ _ := rfl
  classes _ _ _ _ := rfl

/-- A table that keeps all names causes no edits, no ambiguity and no conflict, and keeps all names. -/
theorem remapUnit_of_keepsNames {table : Table} (reachable : table.Reachable) (keeps : table.KeepsNames)
    (hierarchy : Hierarchy) {unit : SourceUnit} (unmerged : unit.AccessorsUnmerged) :
    (remapUnit hierarchy table unit).value.1.edits = []
      ∧ (∀ diagnostic ∈ (remapUnit hierarchy table unit).value.1.diagnostics,
        diagnostic.isMalformedLinkage = true)
      ∧ (remapUnit hierarchy table unit).value.2.KeepsNames := by
  have walked := (keepingNames_permits hierarchy unmerged).meets_each
  have met := walked table ⟨reachable.sound, keeps⟩
  exact ⟨List.eq_nil_iff_forall_not_mem.2 met.allowed.edits, met.allowed.reports, met.kept.2⟩

/-! ## An accessor that an injection calls -/

def callTarget : ClassName :=
  ⟨"p/t", by decide +kernel⟩

def callMixin : ClassName :=
  ⟨"m/M", by decide +kernel⟩

/-- The type `int`. -/
def callType : FieldType :=
  { FieldType.ofClass callTarget with base := .primitive .int }

def callOperations : List Operation :=
  [.touchField callTarget ⟨⟨"foo", by decide +kernel⟩, some callType⟩, .createClass callMixin]

/-- Both classes are completed already. -/
def callTable : Table :=
  ((callOperations.foldl Operation.apply (.empty .standard)).update callTarget
    (ClassEntry.completeWith [] [])).update callMixin (ClassEntry.completeWith [] [])

/-- A mixin of `p/t` with an accessor for `foo`, and an injection at calls of the accessor. -/
def callUnit (accessor : MethodName) (point : String) : SourceUnit :=
  ⟨"m/M.java",
    [.mk callMixin [⟨AnnotationName.mixin, ⟨0, 15⟩, [("value", .classLiteral callTarget)]⟩] []
      [⟨accessor, ⟨[], some callType⟩, false, [⟨AnnotationName.accessor, ⟨20, 29⟩, []⟩]⟩,
        ⟨⟨"call", by decide +kernel⟩, ⟨[], none⟩, false,
          [⟨AnnotationName.inject, ⟨40, 99⟩,
            [("at", .nested AnnotationName.point ⟨50, 98⟩ [("target", .string ⟨point, ⟨60, 82⟩⟩)])]⟩]⟩]
      []]⟩

def plainCall : SourceUnit :=
  callUnit ⟨"getFoo", by decide +kernel⟩ "Lm/M;getFoo()I"

def mergedCall : SourceUnit :=
  callUnit ⟨"getFoo_$md$1", by decide +kernel⟩ "Lm/M;getFoo_$md$1()I"

/-- Both classes are created and completed. -/
theorem reachable_callTable : callTable.Reachable := by
  have first := ((Table.Reachable.empty .standard).run callOperations).apply (.complete .empty callTarget)
  rw [Operation.apply, Table.complete_of_unknown rfl (by decide +kernel)] at first
  have second := first.apply (.complete .empty callMixin)
  rwa [Operation.apply, Table.complete_of_unknown rfl (by decide +kernel)] at second

/-- The accessor and the call of it stay. -/
theorem remapUnit_of_keepsNames_call :
    callTable.Reachable ∧ callTable.KeepsNames ∧ plainCall.AccessorsUnmerged
      ∧ (remapUnit .empty callTable plainCall).value.1.edits = []
      ∧ (remapUnit .empty callTable plainCall).value.2.KeepsNames := by
  have keeps : callTable.KeepsNames := by decide +kernel
  have plain : ∀ decl ∈ plainCall.walk, ∀ method ∈ decl.methods,
      ¬AccessorName.mergeMarker <:+: method.name.text.toList := by
    decide +kernel
  have unmerged : plainCall.AccessorsUnmerged :=
    fun decl declared method member _ => plain decl declared method member
  obtain ⟨edits, _, still⟩ := remapUnit_of_keepsNames reachable_callTable keeps .empty unmerged
  exact ⟨reachable_callTable, keeps, unmerged, edits, still⟩

/-- With the marker in its name, the accessor gets another name, and the call of it is edited. -/
theorem edits_of_merged_accessor :
    callTable.Reachable ∧ callTable.KeepsNames
      ∧ (remapUnit .empty callTable mergedCall).value.1.edits
        = [⟨⟨60, 82⟩, "Lm/M;getFoo_$md$1()I", "Lm/M;getFoo()I"⟩] :=
  ⟨reachable_callTable, by decide +kernel, by decide +kernel⟩

end MixinLink
