import Mathlib.Data.List.Nodup
import Mathlib.Data.List.Pairwise
import MixinLink.Cleaning
import MixinLink.Proofs.Readings

/-!
# Cleaning a class once is enough

The edits of a class are applied to its declaration: annotations are removed, and a `@Final` is put
after each `@Shadow` that asks for one. Every edit is about an annotation of the field it was made
for, and the annotations are told apart by their places, so the edits of a field change this field
only. Afterwards all shadows agree with the fields they stand for, and the same problems are
reported. Whether a field gets a `@Final` is told next to its edits, and agrees with them, so there
is an import exactly with an insertion.

Main exports: `ClassDecl.edited`, `FieldDecl.Agrees`, `ClassDecl.WellMarked`, `agrees_edited`,
`FieldCleaning.Tells`, `cleanClass_edited`.
-/

namespace MixinLink

/-! ## Applying edits -/

namespace SourceEdit

/-- The place of the annotation that an edit is about. -/
def place? : SourceEdit → Option Span
  | insertMark after _ => some after
  | removeMark span _ => some span
  | addImport _ => none

/-- The edit removes the annotation at a place. -/
def removesAt (place : Span) : SourceEdit → Bool
  | removeMark span _ => span = place
  | _ => false

/-- The edit inserts an annotation after the one at a place. -/
def insertsAt (place : Span) : SourceEdit → Bool
  | insertMark after _ => after = place
  | _ => false

/-- An edit that removes there is a removal. -/
theorem eq_of_removesAt {place : Span} {edit : SourceEdit} (removes : edit.removesAt place = true) :
    ∃ name, edit = removeMark place name := by
  cases edit with
  | removeMark span name => exact ⟨name, by simpa [removesAt] using removes⟩
  | insertMark after text => simp [removesAt] at removes
  | addImport className => simp [removesAt] at removes

/-- An edit that inserts there is an insertion. -/
theorem eq_of_insertsAt {place : Span} {edit : SourceEdit} (inserts : edit.insertsAt place = true) :
    ∃ text, edit = insertMark place text := by
  cases edit with
  | insertMark after text => exact ⟨text, by simpa [insertsAt] using inserts⟩
  | removeMark span name => simp [insertsAt] at inserts
  | addImport className => simp [insertsAt] at inserts

end SourceEdit

/-- The annotation stays. -/
def isKept (edits : List SourceEdit) (mark : Annotation) : Bool :=
  !edits.any (SourceEdit.removesAt mark.span)

/-- The annotation is a `@Shadow` that gets a `@Final` after it. -/
def getsFinal (edits : List SourceEdit) (mark : Annotation) : Bool :=
  mark.name = AnnotationName.shadow && edits.any (SourceEdit.insertsAt mark.span)

/-- The annotations of a field after edits. The place of a new annotation is given by the place of the one
before it. -/
def editedMarks (edits : List SourceEdit) (newPlace : Span → Span) (marks : List Annotation) :
    List Annotation :=
  (marks.filter (isKept edits)).flatMap fun mark =>
    if getsFinal edits mark then [mark, ⟨AnnotationName.final, newPlace mark.span, []⟩] else [mark]

/-- The field after edits. -/
def FieldDecl.edited (edits : List SourceEdit) (newPlace : Span → Span) (field : FieldDecl) : FieldDecl :=
  { field with annotations := editedMarks edits newPlace field.annotations }

/-- The method after edits. -/
def MethodDecl.edited (edits : List SourceEdit) (method : MethodDecl) : MethodDecl :=
  { method with annotations := method.annotations.filter (isKept edits) }

mutual

/-- The class after edits, with the classes nested in it. -/
def ClassDecl.edited (edits : List SourceEdit) (newPlace : Span → Span) : ClassDecl → ClassDecl
  | .mk name annotations fields methods inner =>
    .mk name (annotations.filter (isKept edits)) (fields.map (FieldDecl.edited edits newPlace))
      (methods.map (MethodDecl.edited edits)) (ClassDecl.editedAll edits newPlace inner)

/-- Several classes after edits. -/
def ClassDecl.editedAll (edits : List SourceEdit) (newPlace : Span → Span) : List ClassDecl → List ClassDecl
  | [] => []
  | decl :: rest => decl.edited edits newPlace :: ClassDecl.editedAll edits newPlace rest

end

section

variable {edits : List SourceEdit} {newPlace : Span → Span} {marks : List Annotation}

/-- The annotations after edits are those that stay, and a new `@Final` for each `@Shadow` that gets one. -/
theorem mem_editedMarks {mark : Annotation} :
    mark ∈ editedMarks edits newPlace marks
      ↔ (mark ∈ marks ∧ isKept edits mark = true)
        ∨ ∃ shadow ∈ marks, isKept edits shadow = true ∧ getsFinal edits shadow = true
          ∧ mark = ⟨AnnotationName.final, newPlace shadow.span, []⟩ := by
  simp only [editedMarks, List.mem_flatMap, List.mem_filter]
  constructor
  · intro found
    obtain ⟨old, ⟨member, kept⟩, here⟩ := found
    split at here
    · rename_i gets
      rcases List.mem_cons.1 here with same | new
      · exact .inl (same ▸ ⟨member, kept⟩)
      · exact .inr ⟨old, member, kept, gets, List.mem_singleton.1 new⟩
    · exact .inl (List.mem_singleton.1 here ▸ ⟨member, kept⟩)
  · intro found
    rcases found with old | ⟨shadow, member, kept, gets, rfl⟩
    · refine ⟨mark, old, ?_⟩
      split
      · exact List.mem_cons_self
      · exact List.mem_singleton_self mark
    · exact ⟨shadow, ⟨member, kept⟩, by simp [gets]⟩

/-- An annotation other than `@Final` is found as before if none of its name is removed. -/
theorem findAnnotation?_editedMarks {name : String} (other : name ≠ AnnotationName.final)
    (stay : ∀ mark ∈ marks, mark.name = name → isKept edits mark = true) :
    findAnnotation? (editedMarks edits newPlace marks) name = findAnnotation? marks name := by
  induction marks with
  | nil => rfl
  | cons mark rest ih =>
      have later := ih fun mark member => stay mark (List.mem_cons_of_mem _ member)
      simp only [findAnnotation?, editedMarks] at later ⊢
      by_cases named : mark.name = name
      · have kept := stay mark List.mem_cons_self named
        rw [List.filter_cons, if_pos kept, List.flatMap_cons]
        split <;> simp [named]
      · by_cases kept : isKept edits mark = true
        · rw [List.filter_cons, if_pos kept, List.flatMap_cons]
          split <;> simp [named, Ne.symm other, later]
        · rw [List.filter_cons, if_neg kept, later]
          simp [named]

end

/-! ## Shadows that agree -/

/-- The annotations of a shadow agree with the field it stands for: there is a `@Final` or a `@Mutable`
exactly if the field is final. -/
def FieldDecl.Agrees (field : FieldDecl) (info : FieldInfo) : Prop :=
  info.isFinal = true
    ↔ ∃ mark ∈ field.annotations, mark.name = AnnotationName.final ∨ mark.name = AnnotationName.mutable

/-- No annotation is found if none has the name. -/
theorem findAnnotation?_eq_none {marks : List Annotation} {name : String} :
    findAnnotation? marks name = none ↔ ∀ mark ∈ marks, mark.name ≠ name := by
  simp [findAnnotation?, List.find?_eq_none]

/-- What is found is an annotation of the name. -/
theorem findAnnotation?_eq_some {marks : List Annotation} {name : String} {mark : Annotation}
    (found : findAnnotation? marks name = some mark) : mark ∈ marks ∧ mark.name = name := by
  exact ⟨List.mem_of_find?_eq_some found, by simpa using List.find?_some found⟩

/-- There is nothing to do for a shadow that agrees. -/
theorem cleanShadow_of_agrees {field : FieldDecl} {info : FieldInfo} (shadow : Annotation)
    (agrees : field.Agrees info) : cleanShadow field shadow info = .nothing := by
  cases isFinal : info.isFinal with
  | true =>
      obtain ⟨mark, member, named⟩ := agrees.1 isFinal
      have someThere : ¬((findAnnotation? field.annotations AnnotationName.final).isNone
          && (findAnnotation? field.annotations AnnotationName.mutable).isNone) = true := by
        simp only [Bool.and_eq_true, Option.isNone_iff_eq_none, findAnnotation?_eq_none]
        intro absent
        cases named with
        | inl isFinal => exact absent.1 mark member isFinal
        | inr isMutable => exact absent.2 mark member isMutable
      simp only [cleanShadow, isFinal, ite_true]
      exact if_neg someThere
  | false =>
      have neither : ∀ mark ∈ field.annotations,
          mark.name ≠ AnnotationName.final ∧ mark.name ≠ AnnotationName.mutable := by
        intro mark member
        have notBoth : ¬∃ mark ∈ field.annotations,
            mark.name = AnnotationName.final ∨ mark.name = AnnotationName.mutable := by
          simpa [isFinal] using agrees.2
        exact not_or.1 fun named => notBoth ⟨mark, member, named⟩
      have noFinal := findAnnotation?_eq_none.2 fun mark member => (neither mark member).1
      have noMutable := findAnnotation?_eq_none.2 fun mark member => (neither mark member).2
      simp [cleanShadow, isFinal, noFinal, noMutable, FieldCleaning.nothing]

/-! ## Edits and the fields they are about -/

/-- What each edit for a shadow is: a `@Final` after the `@Shadow` of a final field, or the end of a `@Final`
or `@Mutable` of another one. -/
theorem mem_edits_cleanShadow {field : FieldDecl} {shadow : Annotation} {info : FieldInfo}
    {edit : SourceEdit} (member : edit ∈ (cleanShadow field shadow info).edits) :
    (info.isFinal = true ∧ edit = .insertMark shadow.span "@Final")
      ∨ (info.isFinal = false ∧ ∃ mark ∈ field.annotations,
        (mark.name = AnnotationName.final ∨ mark.name = AnnotationName.mutable)
          ∧ edit = .removeMark mark.span mark.name) := by
  cases isFinal : info.isFinal with
  | true =>
      simp only [cleanShadow, isFinal, ite_true] at member
      split at member
      · exact .inl ⟨rfl, List.mem_singleton.1 member⟩
      · simp [FieldCleaning.nothing] at member
  | false =>
      simp only [cleanShadow, isFinal, Bool.false_eq_true, ite_false, List.mem_map, List.mem_append,
        Option.mem_toList] at member
      obtain ⟨mark, found, same⟩ := member
      cases found with
      | inl final =>
          obtain ⟨inField, named⟩ := findAnnotation?_eq_some final
          exact .inr ⟨rfl, mark, inField, .inl named, same.symm⟩
      | inr mutable =>
          obtain ⟨inField, named⟩ := findAnnotation?_eq_some mutable
          exact .inr ⟨rfl, mark, inField, .inr named, same.symm⟩

/-- Of some edits, these are the ones about the annotations of a field. -/
structure FieldDecl.Owns (field : FieldDecl) (edits own : List SourceEdit) : Prop where
  included : ∀ edit ∈ own, edit ∈ edits
  others : ∀ edit ∈ edits, ∀ mark ∈ field.annotations, edit.place? = some mark.span → edit ∈ own

/-- No two annotations of a field are at the same place, and at most one is a `@Final` and at most one a
`@Mutable`. -/
structure FieldDecl.WellMarked (field : FieldDecl) : Prop where
  distinct : (field.annotations.map Annotation.span).Nodup
  single : ∀ name ∈ [AnnotationName.final, AnnotationName.mutable],
    (field.annotations.filter (·.name = name)).length ≤ 1

section

variable {field : FieldDecl} {shadow : Annotation} {info : FieldInfo} {edits : List SourceEdit}

/-- An annotation that does not stay is removed by an edit. -/
theorem exists_removal {mark : Annotation} (removed : isKept edits mark = false) :
    ∃ name, .removeMark mark.span name ∈ edits := by
  obtain ⟨edit, inEdits, removes⟩ : ∃ edit ∈ edits, edit.removesAt mark.span = true := by
    simpa [isKept] using removed
  obtain ⟨name, rfl⟩ := SourceEdit.eq_of_removesAt removes
  exact ⟨name, inEdits⟩

/-- Annotations of a field are removed by its own edits. -/
theorem FieldDecl.Owns.removes {own : List SourceEdit} (owns : field.Owns edits own) {mark : Annotation}
    (member : mark ∈ field.annotations) (removed : isKept edits mark = false) :
    ∃ name, .removeMark mark.span name ∈ own := by
  obtain ⟨name, inEdits⟩ := exists_removal removed
  exact ⟨name, owns.others _ inEdits mark member rfl⟩

/-- Annotations are inserted in a field by its own edits. -/
theorem FieldDecl.Owns.inserts {own : List SourceEdit} (owns : field.Owns edits own) {mark : Annotation}
    (member : mark ∈ field.annotations) (gets : getsFinal edits mark = true) :
    ∃ text, .insertMark mark.span text ∈ own := by
  obtain ⟨_, edit, inEdits, inserts⟩ :
      mark.name = AnnotationName.shadow ∧ ∃ edit ∈ edits, edit.insertsAt mark.span = true := by
    simpa [getsFinal] using gets
  obtain ⟨text, rfl⟩ := SourceEdit.eq_of_insertsAt inserts
  exact ⟨text, owns.others _ inEdits mark member rfl⟩

/-- The only annotation of a name is the one that is found. -/
theorem find_of_single {marks : List Annotation} {name : String} {mark : Annotation}
    (single : (marks.filter (·.name = name)).length ≤ 1) (member : mark ∈ marks) (named : mark.name = name) :
    findAnnotation? marks name = some mark := by
  cases found : findAnnotation? marks name with
  | none => exact absurd named (findAnnotation?_eq_none.1 found mark member)
  | some first =>
      obtain ⟨inMarks, isNamed⟩ := findAnnotation?_eq_some found
      have here : mark ∈ marks.filter (·.name = name) := by simp [member, named]
      have there : first ∈ marks.filter (·.name = name) := by simp [inMarks, isNamed]
      obtain ⟨only, isOnly⟩ := List.length_eq_one_iff.1
        (Nat.le_antisymm single (List.length_pos_of_mem here))
      rw [isOnly, List.mem_singleton] at here there
      rw [here, there]

/-- Nothing is removed from the shadow of a final field. -/
theorem isKept_of_final (owns : field.Owns edits (cleanShadow field shadow info).edits)
    (isFinal : info.isFinal = true)
    {mark : Annotation} (member : mark ∈ field.annotations) : isKept edits mark = true := by
  by_contra removed
  obtain ⟨name, own⟩ := owns.removes member (by simpa using removed)
  rcases mem_edits_cleanShadow own with ⟨_, inserts⟩ | ⟨notFinal, _⟩
  · cases inserts
  · simp [isFinal] at notFinal

/-- The shadow of a final field has a `@Final` or a `@Mutable` that stays, or else gets a `@Final`. -/
theorem marked_edited (newPlace : Span → Span)
    (isShadow : findAnnotation? field.annotations AnnotationName.shadow = some shadow)
    (owns : field.Owns edits (cleanShadow field shadow info).edits) (isFinal : info.isFinal = true) :
    ∃ mark ∈ (field.edited edits newPlace).annotations,
      mark.name = AnnotationName.final ∨ mark.name = AnnotationName.mutable := by
  by_cases already : ∃ mark ∈ field.annotations,
      mark.name = AnnotationName.final ∨ mark.name = AnnotationName.mutable
  · obtain ⟨mark, member, isOne⟩ := already
    exact ⟨mark, mem_editedMarks.2 (.inl ⟨member, isKept_of_final owns isFinal member⟩), isOne⟩
  · have noFinal : findAnnotation? field.annotations AnnotationName.final = none :=
      findAnnotation?_eq_none.2 fun mark member isOne => already ⟨mark, member, .inl isOne⟩
    have noMutable : findAnnotation? field.annotations AnnotationName.mutable = none :=
      findAnnotation?_eq_none.2 fun mark member isOne => already ⟨mark, member, .inr isOne⟩
    have inserted : .insertMark shadow.span "@Final" ∈ (cleanShadow field shadow info).edits := by
      simp [cleanShadow, isFinal, noFinal, noMutable]
    obtain ⟨inField, named⟩ := findAnnotation?_eq_some isShadow
    have gets : getsFinal edits shadow = true := by
      simp only [getsFinal, named, decide_true, Bool.true_and, List.any_eq_true]
      exact ⟨_, owns.included _ inserted, by simp [SourceEdit.insertsAt]⟩
    have kept := isKept_of_final owns isFinal inField
    refine ⟨⟨AnnotationName.final, newPlace shadow.span, []⟩, ?_, .inl rfl⟩
    exact mem_editedMarks.2 (.inr ⟨shadow, inField, kept, gets, rfl⟩)

/-- The shadow of a field that is not final loses its `@Final` and its `@Mutable`, and gets no new one. -/
theorem unmarked_edited (newPlace : Span → Span) (wellMarked : field.WellMarked)
    (owns : field.Owns edits (cleanShadow field shadow info).edits) (notFinal : info.isFinal = false)
    {mark : Annotation} (member : mark ∈ (field.edited edits newPlace).annotations)
    (isOne : mark.name = AnnotationName.final ∨ mark.name = AnnotationName.mutable) : False := by
  rcases mem_editedMarks.1 member with ⟨old, kept⟩ | ⟨before, old, _, gets, _⟩
  · have found : mark ∈ findAnnotation? field.annotations AnnotationName.final
        ∨ mark ∈ findAnnotation? field.annotations AnnotationName.mutable := by
      cases isOne with
      | inl isFinal => exact .inl (find_of_single (wellMarked.single _ (by simp)) old isFinal)
      | inr isMutable => exact .inr (find_of_single (wellMarked.single _ (by simp)) old isMutable)
    have removed : .removeMark mark.span mark.name ∈ (cleanShadow field shadow info).edits := by
      simp only [cleanShadow, notFinal, Bool.false_eq_true, ite_false, List.mem_map, List.mem_append,
        Option.mem_toList]
      exact ⟨mark, found, rfl⟩
    have gone : isKept edits mark = false := by
      simp only [isKept, Bool.not_eq_false', List.any_eq_true]
      exact ⟨_, owns.included _ removed, by simp [SourceEdit.removesAt]⟩
    simp [gone] at kept
  · obtain ⟨text, own⟩ := owns.inserts old gets
    rcases mem_edits_cleanShadow own with ⟨isFinal, _⟩ | ⟨_, _, _, _, removes⟩
    · simp [notFinal] at isFinal
    · cases removes

/-- A shadow agrees with the field it stands for once its edits were applied. -/
theorem agrees_edited (newPlace : Span → Span) (wellMarked : field.WellMarked)
    (isShadow : findAnnotation? field.annotations AnnotationName.shadow = some shadow)
    (owns : field.Owns edits (cleanShadow field shadow info).edits) :
    (field.edited edits newPlace).Agrees info := by
  cases isFinal : info.isFinal with
  | true => exact iff_of_true isFinal (marked_edited newPlace isShadow owns isFinal)
  | false =>
      refine iff_of_false (by simp [isFinal]) ?_
      intro left
      obtain ⟨mark, member, isOne⟩ := left
      exact unmarked_edited newPlace wellMarked owns isFinal member isOne

end

/-! ## Cleaning a field -/

section

variable {hierarchy : Hierarchy} {className target : ClassName} {field : FieldDecl} {shadow : Annotation}

/-- The field that a shadow stands for, if one is found. -/
def shadowedField? (hierarchy : Hierarchy) (className target : ClassName) (name : FieldName)
    (type : FieldType) (shadow : Annotation) : Checked (Option FieldInfo) := do
  let data ← Checked.within (.shadowOf className.text name.text) (ShadowData.ofMark shadow)
  let stripped ← FieldName.parse ((data.strip? name.text).getD name.text)
  return findDeclaredField? hierarchy target stripped type

/-- There is nothing to do for a field without a `@Shadow`. -/
theorem value_cleanField_of_none (plain : findAnnotation? field.annotations AnnotationName.shadow = none) :
    (cleanField hierarchy className target field).run.value = .ok .nothing := by
  simp only [cleanField, plain]
  rfl

/-- What cleaning a shadow gives: what is to do for the field it stands for, if one is found. -/
theorem value_cleanField_of_some
    (isShadow : findAnnotation? field.annotations AnnotationName.shadow = some shadow) :
    (cleanField hierarchy className target field).run.value
      = (fun info => info.elim .nothing (cleanShadow field shadow))
        <$> shadowedField? hierarchy className target field.name field.type shadow := by
  simp only [cleanField, isShadow, Reading.value_check_bind, shadowedField?, map_bind, map_pure]
  congr 1
  funext data
  congr 1
  funext name
  cases findDeclaredField? hierarchy target name field.type with
  | none => rfl
  | some info => rfl

/-- What is to do for a field, nothing if it cannot be cleaned. -/
def fieldCleaning (hierarchy : Hierarchy) (className target : ClassName) (field : FieldDecl) :
    FieldCleaning :=
  match (cleanField hierarchy className target field).run.value with
  | .ok cleaning => cleaning
  | .error _ => .nothing

/-- The problem of a field that cannot be cleaned. -/
def fieldReport? (hierarchy : Hierarchy) (className target : ClassName) (field : FieldDecl) :
    Option Diagnostic :=
  match (cleanField hierarchy className target field).run.value with
  | .ok _ => none
  | .error failure => some (.malformedLinkage className (some field.signature.text) failure.message)

/-- What is to do for a field is nothing, or what its shadow asks for. -/
theorem fieldCleaning_cases (hierarchy : Hierarchy) (className target : ClassName) (field : FieldDecl) :
    fieldCleaning hierarchy className target field = .nothing
      ∨ ∃ shadow info, findAnnotation? field.annotations AnnotationName.shadow = some shadow
        ∧ fieldCleaning hierarchy className target field = cleanShadow field shadow info := by
  unfold fieldCleaning
  cases isShadow : findAnnotation? field.annotations AnnotationName.shadow with
  | none =>
      rw [value_cleanField_of_none isShadow]
      exact .inl rfl
  | some shadow =>
      rw [value_cleanField_of_some isShadow]
      cases found : shadowedField? hierarchy className target field.name field.type shadow with
      | error failure => exact .inl rfl
      | ok result =>
          cases result with
          | none => exact .inl rfl
          | some info => exact .inr ⟨shadow, info, rfl, rfl⟩

/-- Edits for a field are edits for the field that its shadow stands for. -/
theorem mem_edits_fieldCleaning {edit : SourceEdit}
    (member : edit ∈ (fieldCleaning hierarchy className target field).edits) :
    ∃ shadow info, findAnnotation? field.annotations AnnotationName.shadow = some shadow
      ∧ edit ∈ (cleanShadow field shadow info).edits := by
  rcases fieldCleaning_cases hierarchy className target field with nothing | ⟨shadow, info, isShadow, same⟩
  · rw [nothing] at member
    cases member
  · exact ⟨shadow, info, isShadow, same ▸ member⟩

/-- A field is told to get a `@Final` exactly if there is an insertion among its edits. -/
def FieldCleaning.Tells (cleaning : FieldCleaning) : Prop :=
  cleaning.addsFinal = true ↔ ∃ after text, .insertMark after text ∈ cleaning.edits

/-- Each branch for a shadow tells right what it does. -/
theorem tells_cleanShadow (field : FieldDecl) (shadow : Annotation) (info : FieldInfo) :
    (cleanShadow field shadow info).Tells := by
  unfold FieldCleaning.Tells cleanShadow
  dsimp only
  split
  · split
    · exact iff_of_true rfl ⟨shadow.span, "@Final", List.mem_singleton_self _⟩
    · simp [FieldCleaning.nothing]
  · simp

/-- What cleaning a field tells is right. -/
theorem tells_fieldCleaning (hierarchy : Hierarchy) (className target : ClassName) (field : FieldDecl) :
    (fieldCleaning hierarchy className target field).Tells := by
  rcases fieldCleaning_cases hierarchy className target field with nothing | ⟨shadow, info, _, same⟩
  · rw [nothing]
    simp [FieldCleaning.Tells, FieldCleaning.nothing]
  · rw [same]
    exact tells_cleanShadow field shadow info

/-- An edit for a field is about an annotation of the field. -/
theorem place?_of_mem_fieldCleaning {edit : SourceEdit}
    (member : edit ∈ (fieldCleaning hierarchy className target field).edits) :
    ∃ mark ∈ field.annotations, edit.place? = some mark.span := by
  obtain ⟨shadow, info, isShadow, inEdits⟩ := mem_edits_fieldCleaning member
  rcases mem_edits_cleanShadow inEdits with ⟨_, rfl⟩ | ⟨_, mark, inField, _, rfl⟩
  · exact ⟨shadow, (findAnnotation?_eq_some isShadow).1, rfl⟩
  · exact ⟨mark, inField, rfl⟩

/-- The `@Shadow` of a field is still there after the edits of the field were applied. -/
theorem findShadow_edited {edits : List SourceEdit} (newPlace : Span → Span) (wellMarked : field.WellMarked)
    (owns : field.Owns edits (fieldCleaning hierarchy className target field).edits) :
    findAnnotation? (field.edited edits newPlace).annotations AnnotationName.shadow
      = findAnnotation? field.annotations AnnotationName.shadow := by
  apply findAnnotation?_editedMarks (by decide)
  intro mark member named
  by_contra removed
  -- what is removed from the field is a `@Final` or a `@Mutable`, and places tell annotations apart
  obtain ⟨name, own⟩ := owns.removes member (by simpa using removed)
  obtain ⟨shadow, info, _, inEdits⟩ := mem_edits_fieldCleaning own
  rcases mem_edits_cleanShadow inEdits with ⟨_, inserts⟩ | ⟨_, other, inField, isOne, same⟩
  · cases inserts
  · have sameSpan : mark.span = other.span := (SourceEdit.removeMark.inj same).1
    have isOther := List.inj_on_of_nodup_map wellMarked.distinct member inField sameSpan
    rw [← isOther, named] at isOne
    revert isOne
    decide

/-- Cleaning a field again after its edits were applied fails as before, or else finds nothing to do. -/
theorem value_cleanField_edited {edits : List SourceEdit} (newPlace : Span → Span)
    (wellMarked : field.WellMarked)
    (owns : field.Owns edits (fieldCleaning hierarchy className target field).edits) :
    (cleanField hierarchy className target (field.edited edits newPlace)).run.value
      = (fun _ => .nothing) <$> (cleanField hierarchy className target field).run.value := by
  have stillShadow := findShadow_edited newPlace wellMarked owns
  cases isShadow : findAnnotation? field.annotations AnnotationName.shadow with
  | none =>
      rw [value_cleanField_of_none isShadow, value_cleanField_of_none (stillShadow.trans isShadow)]
      rfl
  | some shadow =>
      have again : (cleanField hierarchy className target (field.edited edits newPlace)).run.value
          = (fun info => info.elim .nothing (cleanShadow (field.edited edits newPlace) shadow))
            <$> shadowedField? hierarchy className target field.name field.type shadow :=
        value_cleanField_of_some (stillShadow.trans isShadow)
      rw [again, value_cleanField_of_some isShadow]
      cases found : shadowedField? hierarchy className target field.name field.type shadow with
      | error failure => rfl
      | ok result =>
          cases result with
          | none => rfl
          | some info =>
              have own : fieldCleaning hierarchy className target field = cleanShadow field shadow info := by
                simp [fieldCleaning, value_cleanField_of_some isShadow, found]
              have agrees := agrees_edited newPlace wellMarked isShadow (own ▸ owns)
              simp [cleanShadow_of_agrees shadow agrees]

/-- Once the edits of a field were applied, nothing is to do for it, and the same problem is reported. -/
theorem fieldCleaning_edited {edits : List SourceEdit} (newPlace : Span → Span)
    (wellMarked : field.WellMarked)
    (owns : field.Owns edits (fieldCleaning hierarchy className target field).edits) :
    fieldCleaning hierarchy className target (field.edited edits newPlace) = .nothing
      ∧ fieldReport? hierarchy className target (field.edited edits newPlace)
        = fieldReport? hierarchy className target field := by
  have again := value_cleanField_edited newPlace wellMarked owns
  unfold fieldCleaning fieldReport?
  rw [again]
  cases (cleanField hierarchy className target field).run.value with
  | error failure => exact ⟨rfl, rfl⟩
  | ok cleaning => exact ⟨rfl, rfl⟩

end

/-! ## Cleaning a class -/

/-- The edits for some fields, one field after the other. -/
def fieldEdits (hierarchy : Hierarchy) (className target : ClassName) (fields : List FieldDecl) :
    List SourceEdit :=
  fields.flatMap fun field => (fieldCleaning hierarchy className target field).edits

/-- One of the fields is told to get a `@Final`. -/
def addsFinal (hierarchy : Hierarchy) (className target : ClassName) (fields : List FieldDecl) : Bool :=
  fields.any fun field => (fieldCleaning hierarchy className target field).addsFinal

/-- Cleaning fields gives the edits and the problems of each of them, and tells if one gets a `@Final`. -/
theorem value_cleanFields (hierarchy : Hierarchy) (className target : ClassName) (fields : List FieldDecl) :
    (cleanFields hierarchy className target fields).value
      = (⟨fieldEdits hierarchy className target fields,
          fields.filterMap (fieldReport? hierarchy className target)⟩,
        addsFinal hierarchy className target fields) := by
  induction fields with
  | nil => rfl
  | cons field rest ih =>
      cases cleaned : (cleanField hierarchy className target field).run.value with
      | error failure =>
          have nothing : fieldCleaning hierarchy className target field = .nothing := by
            simp [fieldCleaning, cleaned]
          have report : fieldReport? hierarchy className target field
              = some (.malformedLinkage className (some field.signature.text) failure.message) := by
            simp [fieldReport?, cleaned]
          simp [cleanFields, cleaned, ih, fieldEdits, addsFinal, nothing, FieldCleaning.nothing, report,
            noteMalformed]
      | ok cleaning =>
          have isCleaning : fieldCleaning hierarchy className target field = cleaning := by
            simp [fieldCleaning, cleaned]
          have noReport : fieldReport? hierarchy className target field = none := by
            simp [fieldReport?, cleaned]
          simp [cleanFields, cleaned, ih, fieldEdits, addsFinal, isCleaning, noReport]

/-- What is told about the fields is right: one of them gets a `@Final` exactly if there is an
insertion among the edits. -/
theorem addsFinal_iff {hierarchy : Hierarchy} {className target : ClassName} {fields : List FieldDecl} :
    addsFinal hierarchy className target fields = true
      ↔ ∃ after text, .insertMark after text ∈ fieldEdits hierarchy className target fields := by
  simp only [addsFinal, fieldEdits, List.any_eq_true, List.mem_flatMap]
  constructor
  · rintro ⟨field, isField, adds⟩
    obtain ⟨after, text, own⟩ := (tells_fieldCleaning hierarchy className target field).1 adds
    exact ⟨after, text, field, isField, own⟩
  · rintro ⟨after, text, field, isField, own⟩
    exact ⟨field, isField, (tells_fieldCleaning hierarchy className target field).2 ⟨after, text, own⟩⟩

/-- No two annotations of a class and its fields are at the same place, and no field has two `@Final` or two
`@Mutable`. -/
structure ClassDecl.WellMarked (decl : ClassDecl) : Prop where
  distinct : ((decl.annotations ++ decl.fields.flatMap FieldDecl.annotations).map Annotation.span).Nodup
  single : ∀ field ∈ decl.fields, ∀ name ∈ [AnnotationName.final, AnnotationName.mutable],
    (field.annotations.filter (·.name = name)).length ≤ 1

/-- A class is imported exactly if an annotation is inserted, and then by a single edit, the last one. -/
def ImportsLast (edits : List SourceEdit) : Prop :=
  ((∃ name, .addImport name ∈ edits) ↔ ∃ after text, .insertMark after text ∈ edits)
    ∧ ∀ name, .addImport name ∈ edits → name = AnnotationName.final
      ∧ ∃ front, edits = front ++ [.addImport name] ∧ ∀ other, .addImport other ∉ front

section

variable {hierarchy : Hierarchy} {target : ClassName} {decl : ClassDecl} {field : FieldDecl}

/-- The import for a new `@Final`, if there is one. -/
def importFor (addsFinal : Bool) : List SourceEdit :=
  if addsFinal then [.addImport AnnotationName.final] else []

/-- An import is about no annotation. -/
theorem place?_of_mem_importFor {addsFinal : Bool} {edit : SourceEdit}
    (member : edit ∈ importFor addsFinal) :
    edit.place? = none := by
  unfold importFor at member
  split at member
  · rw [List.mem_singleton.1 member]
    rfl
  · simp at member

/-- The import comes exactly with an insertion, if it is told right whether there is one. -/
theorem importsLast_append {edits : List SourceEdit} {addsFinal : Bool}
    (placed : ∀ edit ∈ edits, edit.place? ≠ none)
    (told : addsFinal = true ↔ ∃ after text, .insertMark after text ∈ edits) :
    ImportsLast (edits ++ importFor addsFinal) := by
  have noImport : ∀ name, .addImport name ∉ edits := fun name member => placed _ member rfl
  cases addsFinal with
  | true =>
      obtain ⟨after, text, member⟩ := told.1 rfl
      rw [importFor, if_pos rfl]
      refine ⟨iff_of_true ⟨AnnotationName.final, by simp⟩ ⟨after, text, by simp [member]⟩, ?_⟩
      intro name inBoth
      have isFinal : name = AnnotationName.final := by simpa [noImport] using inBoth
      exact ⟨isFinal, edits, by rw [isFinal], noImport⟩
  | false =>
      rw [importFor, if_neg Bool.false_ne_true, List.append_nil]
      refine ⟨iff_of_false ?_ (mt told.2 Bool.false_ne_true), ?_⟩
      · intro found
        obtain ⟨name, member⟩ := found
        exact noImport name member
      · intro name member
        exact absurd member (noImport name)

/-- Annotations at the same place belong to the same field. -/
theorem eq_of_same_place {fields : List FieldDecl} {other : FieldDecl} {mark otherMark : Annotation}
    (distinct : ((fields.flatMap FieldDecl.annotations).map Annotation.span).Nodup)
    (isField : field ∈ fields) (isOther : other ∈ fields) (member : mark ∈ field.annotations)
    (inOther : otherMark ∈ other.annotations) (same : mark.span = otherMark.span) : field = other := by
  rw [List.map_flatMap, List.nodup_flatMap] at distinct
  by_contra differ
  have symmetric : Std.Symm (Function.onFun List.Disjoint fun field : FieldDecl =>
      field.annotations.map Annotation.span) := ⟨fun _ _ apart _ here there => apart there here⟩
  have apart := distinct.2.forall isField isOther differ
  exact apart (List.mem_map_of_mem member) (same ▸ List.mem_map_of_mem inOther)

/-- The edits for a field are all edits of the class that are about its annotations. -/
theorem owns_fieldCleaning {className : ClassName} {fields : List FieldDecl}
    (distinct : ((fields.flatMap FieldDecl.annotations).map Annotation.span).Nodup)
    (isField : field ∈ fields)
    {imports : List SourceEdit} (noPlace : ∀ edit ∈ imports, edit.place? = none) :
    field.Owns (fieldEdits hierarchy className target fields ++ imports)
      (fieldCleaning hierarchy className target field).edits where
  included := by
    intro edit own
    exact List.mem_append_left _ (List.mem_flatMap.2 ⟨field, isField, own⟩)
  others := by
    intro edit inEdits mark member here
    rcases List.mem_append.1 inEdits with inFields | inImports
    · obtain ⟨other, isOther, inOther⟩ := List.mem_flatMap.1 inFields
      obtain ⟨otherMark, otherMember, there⟩ := place?_of_mem_fieldCleaning inOther
      have same : mark.span = otherMark.span := Option.some.inj (here.symm.trans there)
      rw [eq_of_same_place distinct isField isOther member otherMember same]
      exact inOther
    · simp [noPlace edit inImports] at here

/-- The fields of a well marked class are well marked. -/
theorem ClassDecl.WellMarked.ofField (wellMarked : decl.WellMarked) (isField : field ∈ decl.fields) :
    field.WellMarked := by
  have distinct := wellMarked.distinct
  rw [List.map_append] at distinct
  have inFields := distinct.of_append_right
  rw [List.map_flatMap, List.nodup_flatMap] at inFields
  exact ⟨inFields.1 field isField, wellMarked.single field isField⟩

/-- No two annotations of fields are at the same place. -/
theorem ClassDecl.WellMarked.distinctFields (wellMarked : decl.WellMarked) :
    ((decl.fields.flatMap FieldDecl.annotations).map Annotation.span).Nodup := by
  have distinct := wellMarked.distinct
  rw [List.map_append] at distinct
  exact distinct.of_append_right

/-- The edits of the fields leave the annotations of the class itself. -/
theorem ClassDecl.WellMarked.keepsOwn (wellMarked : decl.WellMarked) {imports : List SourceEdit}
    (noPlace : ∀ edit ∈ imports, edit.place? = none) {mark : Annotation} (member : mark ∈ decl.annotations) :
    isKept (fieldEdits hierarchy decl.name target decl.fields ++ imports) mark = true := by
  by_contra removed
  obtain ⟨name, inEdits⟩ := exists_removal (by simpa using removed)
  rcases List.mem_append.1 inEdits with inFields | inImports
  · obtain ⟨field, isField, own⟩ := List.mem_flatMap.1 inFields
    obtain ⟨other, inField, there⟩ := place?_of_mem_fieldCleaning own
    have same : mark.span = other.span := Option.some.inj there
    have distinct := wellMarked.distinct
    rw [List.map_append] at distinct
    have inFields : other.span ∈ (decl.fields.flatMap FieldDecl.annotations).map Annotation.span :=
      List.mem_map_of_mem (List.mem_flatMap.2 ⟨field, isField, inField⟩)
    exact distinct.disjoint (List.mem_map_of_mem member) (same ▸ inFields)
  · cases noPlace _ inImports

/-- Which target a class has depends on its name and its annotations only. -/
theorem cleanTarget?_congr {other : ClassDecl} (sameName : other.name = decl.name)
    (sameMarks : other.annotations = decl.annotations) :
    cleanTarget? hierarchy other = cleanTarget? hierarchy decl := by
  simp only [cleanTarget?, MixinData.ofClass?, sameName, sameMarks]

/-- A class whose target cannot be read is reported. -/
theorem value_cleanClass_of_error {failure : Failure}
    (fails : (cleanTarget? hierarchy decl).run.value = .error failure) :
    (cleanClass hierarchy decl).value = ⟨[], [.malformedLinkage decl.name none failure.message]⟩ := by
  simp [cleanClass, fails, noteMalformed]

/-- A class without a known target is left alone. -/
theorem value_cleanClass_of_none (untargeted : (cleanTarget? hierarchy decl).run.value = .ok none) :
    (cleanClass hierarchy decl).value = ⟨[], []⟩ := by
  simp [cleanClass, untargeted]

/-- What cleaning a class with a target gives. -/
theorem value_cleanClass_of_target (targeted : (cleanTarget? hierarchy decl).run.value = .ok (some target)) :
    (cleanClass hierarchy decl).value
      = ⟨fieldEdits hierarchy decl.name target decl.fields
          ++ importFor (addsFinal hierarchy decl.name target decl.fields),
        decl.fields.filterMap (fieldReport? hierarchy decl.name target)⟩ := by
  simp only [cleanClass, Noted.value_bind, targeted, value_cleanFields, importFor]
  split
  · rfl
  · simp

/-- Edits leave the name of a class. -/
theorem name_edited (edits : List SourceEdit) (newPlace : Span → Span) :
    (decl.edited edits newPlace).name = decl.name := by
  cases decl
  rfl

/-- Edits remove annotations of a class. -/
theorem annotations_edited (edits : List SourceEdit) (newPlace : Span → Span) :
    (decl.edited edits newPlace).annotations = decl.annotations.filter (isKept edits) := by
  cases decl
  rfl

/-- Edits change each field of a class. -/
theorem fields_edited (edits : List SourceEdit) (newPlace : Span → Span) :
    (decl.edited edits newPlace).fields = decl.fields.map (FieldDecl.edited edits newPlace) := by
  cases decl
  rfl

/-- Without edits, and with the edits of the fields, a class keeps its target. -/
theorem cleanTarget?_edited {edits : List SourceEdit} (newPlace : Span → Span)
    (stay : ∀ mark ∈ decl.annotations, isKept edits mark = true) :
    cleanTarget? hierarchy (decl.edited edits newPlace) = cleanTarget? hierarchy decl := by
  apply cleanTarget?_congr (name_edited edits newPlace)
  rw [annotations_edited, List.filter_eq_self]
  exact stay

/-- Cleaning a class that keeps its target gives no edits if none of its fields has any, and the problems of
its fields. -/
theorem value_cleanClass_edited {edits : List SourceEdit} (newPlace : Span → Span)
    (targeted : (cleanTarget? hierarchy decl).run.value = .ok (some target))
    (stay : ∀ mark ∈ decl.annotations, isKept edits mark = true)
    (settled : ∀ field ∈ decl.fields,
      fieldCleaning hierarchy decl.name target (field.edited edits newPlace) = .nothing
        ∧ fieldReport? hierarchy decl.name target (field.edited edits newPlace)
          = fieldReport? hierarchy decl.name target field) :
    (cleanClass hierarchy (decl.edited edits newPlace)).value
      = ⟨[], decl.fields.filterMap (fieldReport? hierarchy decl.name target)⟩ := by
  have again : (cleanTarget? hierarchy (decl.edited edits newPlace)).run.value = .ok (some target) := by
    rw [cleanTarget?_edited newPlace stay, targeted]
  have noEdits : fieldEdits hierarchy decl.name target
      (decl.fields.map (FieldDecl.edited edits newPlace)) = [] := by
    rw [fieldEdits, List.flatMap_map, List.flatMap_eq_nil_iff]
    intro field isField
    rw [(settled field isField).1]
    rfl
  have noFinal : addsFinal hierarchy decl.name target
      (decl.fields.map (FieldDecl.edited edits newPlace)) = false := by
    rw [addsFinal, List.any_map, List.any_eq_false]
    intro field isField
    simp [(settled field isField).1, FieldCleaning.nothing]
  have sameReports : (decl.fields.map (FieldDecl.edited edits newPlace)).filterMap
      (fieldReport? hierarchy decl.name target)
        = decl.fields.filterMap (fieldReport? hierarchy decl.name target) := by
    rw [List.filterMap_map]
    exact List.filterMap_congr fun field isField => (settled field isField).2
  rw [value_cleanClass_of_target again, name_edited, fields_edited, noEdits, noFinal, sameReports]
  rfl

/-- Cleaning a class again after its edits were applied gives no edits and reports the same problems. In the
edits themselves a class is imported exactly if an annotation is inserted, once and at the end. -/
theorem cleanClass_edited (hierarchy : Hierarchy) (wellMarked : decl.WellMarked) (newPlace : Span → Span) :
    (cleanClass hierarchy (decl.edited (cleanClass hierarchy decl).value.edits newPlace)).value
        = ⟨[], (cleanClass hierarchy decl).value.diagnostics⟩
      ∧ ImportsLast (cleanClass hierarchy decl).value.edits := by
  have unchanged : cleanTarget? hierarchy (decl.edited [] newPlace) = cleanTarget? hierarchy decl :=
    cleanTarget?_edited newPlace fun _ _ => rfl
  have nothing : ImportsLast ([] ++ importFor false) := importsLast_append (by simp) (by simp)
  cases targeted : (cleanTarget? hierarchy decl).run.value with
  | error failure =>
      have again := value_cleanClass_of_error ((congrArg (·.run.value) unchanged).trans targeted)
      rw [value_cleanClass_of_error targeted]
      exact ⟨by rw [again, name_edited], nothing⟩
  | ok found =>
      cases found with
      | none =>
          have again := value_cleanClass_of_none ((congrArg (·.run.value) unchanged).trans targeted)
          rw [value_cleanClass_of_none targeted]
          exact ⟨again, nothing⟩
      | some target =>
          rw [value_cleanClass_of_target targeted]
          -- the import is about no annotation, so the fields still own the edits about theirs
          have noPlace : ∀ edit ∈ importFor (addsFinal hierarchy decl.name target decl.fields),
              edit.place? = none := fun _ member => place?_of_mem_importFor member
          constructor
          · apply value_cleanClass_edited newPlace targeted
            · intro mark member
              exact wellMarked.keepsOwn noPlace member
            · intro field isField
              exact fieldCleaning_edited newPlace (wellMarked.ofField isField)
                (owns_fieldCleaning wellMarked.distinctFields isField noPlace)
          · refine importsLast_append (fun edit member => ?_) addsFinal_iff
            obtain ⟨field, _, own⟩ := List.mem_flatMap.1 member
            obtain ⟨mark, _, here⟩ := place?_of_mem_fieldCleaning own
            simp [here]

end

/-! ## A mixin with three shadows -/

/-- A class with a final field `oak` and another field `elm`. -/
def groveTarget : ClassName :=
  ⟨"g/Grove", by decide +kernel⟩

def groveField (name : FieldName) (isFinal : Bool) : FieldInfo :=
  ⟨name, .ofClass groveTarget, true, isFinal⟩

def groveOak : FieldName :=
  ⟨"oak", by decide +kernel⟩

def groveElm : FieldName :=
  ⟨"elm", by decide +kernel⟩

def groveHierarchy : Hierarchy :=
  ⟨[⟨groveTarget, none, [], [groveField groveOak true, groveField groveElm false], []⟩]⟩

/-- The shadow of `oak` lacks a `@Final`, that of `elm` has two annotations too many, and the last one has an
element that is not known. -/
def groveMixin : ClassDecl :=
  .mk ⟨"m/GroveMixin", by decide +kernel⟩
    [⟨AnnotationName.mixin, ⟨0, 9⟩, [("value", .classLiteral groveTarget)]⟩]
    [⟨groveOak, .ofClass groveTarget, [⟨AnnotationName.shadow, ⟨10, 17⟩, []⟩]⟩,
      ⟨groveElm, .ofClass groveTarget, [⟨AnnotationName.final, ⟨20, 26⟩, []⟩,
        ⟨AnnotationName.shadow, ⟨30, 37⟩, []⟩, ⟨AnnotationName.mutable, ⟨40, 48⟩, []⟩]⟩,
      ⟨groveOak, .ofClass groveTarget, [⟨AnnotationName.shadow, ⟨50, 70⟩, [("bark", .boolean true)]⟩]⟩]
    [] []

/-- All three kinds of edits are made, and one problem is reported. The second time only the problem is
left. -/
theorem cleanClass_edited_grove :
    groveMixin.WellMarked
      ∧ (cleanClass groveHierarchy groveMixin).value.edits
        = [.insertMark ⟨10, 17⟩ "@Final", .removeMark ⟨20, 26⟩ AnnotationName.final,
          .removeMark ⟨40, 48⟩ AnnotationName.mutable, .addImport AnnotationName.final]
      ∧ (cleanClass groveHierarchy groveMixin).value.diagnostics.length = 1
      ∧ (cleanClass groveHierarchy
        (groveMixin.edited (cleanClass groveHierarchy groveMixin).value.edits id)).value
          = ⟨[], (cleanClass groveHierarchy groveMixin).value.diagnostics⟩ := by
  have wellMarked : groveMixin.WellMarked := ⟨by decide +kernel, by decide +kernel⟩
  have again := (cleanClass_edited groveHierarchy wellMarked id).1
  exact ⟨wellMarked, by decide +kernel, by decide +kernel, again⟩

end MixinLink
