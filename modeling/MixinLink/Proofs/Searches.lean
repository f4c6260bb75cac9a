import MixinLink.Proofs.Resolution

/-!
# Looking for the mapped name of a member

Linkages look for a member in all targets of a mixin, or in one interface. From a sound table such a search
does not fail: it looks up fields, edits nothing, and what it finds is a mapped name that the table has for a
member of that name. It reports something only if the table maps members of one name in different ways.

Main exports: `Diagnostic.namesMember`, `Searches`, `searches_findField`, `searches_findMethod`,
`searches_lookUpMethod`, `Table.Sound.disagrees_of_memberAnswers`.
-/

namespace MixinLink

open Relation (ReflTransGen)

/-- The diagnostic is about a member, not about a class as a whole. -/
def Diagnostic.namesMember : Diagnostic → Bool
  | malformedLinkage _ member _ => member.isSome
  | ambiguousOverload _ member _ _ _ => member.isSome
  | conflictingTargets _ member _ _ _ _ => member.isSome

/-- What is reported about targets comes from two targets with different results. -/
theorem FirstOfTargets.exists_different {α : Type} [DecidableEq α] [ToString α] {place : Place}
    {answer : ClassName → Resolved α} {outcome : Resolved α} {reports : List Diagnostic}
    (first : FirstOfTargets place answer outcome reports) {diagnostic : Diagnostic}
    (reported : diagnostic ∈ reports) :
    diagnostic.namesMember = true
      ∧ ∃ target value other otherValue, answer target = .found value
        ∧ answer other = .found otherValue ∧ value ≠ otherValue := by
  cases first with
  | @found _ _ target value _ gives _ =>
      obtain ⟨other, _, isConflict⟩ := List.mem_filterMap.1 reported
      unfold conflict? at isConflict
      split at isConflict
      · rename_i otherValue otherGives
        split at isConflict
        · cases isConflict
        · rename_i apart
          cases isConflict
          exact ⟨rfl, target, value, other, otherValue, gives, otherGives, apart⟩
      · cases isConflict
  | ambiguous => cases reported
  | missing => cases reported

/-- An ambiguity is the answer of some target. -/
theorem FirstOfTargets.exists_ambiguous {α : Type} [DecidableEq α] [ToString α] {place : Place}
    {answer : ClassName → Resolved α} {candidates : List String} {reports : List Diagnostic}
    (first : FirstOfTargets place answer (.ambiguous candidates) reports) :
    ∃ target, answer target = .ambiguous candidates := by
  cases first with
  | @ambiguous _ _ target _ _ _ gives _ => exact ⟨target, gives⟩

/-! ## Look-ups that change no answer -/

/-- The fields that are looked up on the way change nothing about the field that is looked for. -/
theorem stably_lookUpField {table : Table} (sound : table.Sound) (signature : FieldSignature) :
    LooksUpStably (ReflTransGen LooksUp table) (lookUpField signature)
      fun target => .ofOption ((table.resolveField target signature).1.map FieldMapping.mapped) where
  value now reached target := by
    have same : (now.resolveField target signature).1.map FieldMapping.mapped
        = (table.resolveField target signature).1.map FieldMapping.mapped := by
      induction reached with
      | refl => rfl
      | @tail now _ earlier last ih =>
          obtain ⟨owner, looked, rfl⟩ := last
          have keyed : ∀ name entry, now.find? name = some entry → entry.FieldsKeyed :=
            fun _ _ present => ((sound.looksUps earlier).soundAt present).members.fields
          rw [Table.mapped_resolveField keyed, ih]
    rw [← same]
    rfl
  quiet _ _ _ := rfl
  stays _ reached target := reached.tail ⟨target, signature, rfl⟩

/-- The fields that are looked up on the way change nothing about methods. -/
theorem method?_of_looksUps {table after : Table} (lookedUp : ReflTransGen LooksUp table after)
    (owner : ClassName) (signature : MethodSignature) :
    after.method? owner signature = table.method? owner signature := by
  induction lookedUp with
  | refl => rfl
  | tail _ last ih =>
      obtain ⟨other, field, rfl⟩ := last
      rw [Table.method?_resolveField, ih]

/-- Looking up a method changes nothing at all. -/
theorem stably_lookUpMethod (table : Table) (signature : MethodSignature) :
    LooksUpStably (ReflTransGen LooksUp table) (lookUpMethod signature)
      fun target => .ofOption ((table.method? target signature).map MethodMapping.mapped) where
  value now reached target := by
    rw [← method?_of_looksUps reached]
    rfl
  quiet _ _ _ := rfl
  stays _ reached _ := reached

/-! ## Searches -/

/-- How a search for the mapped name of a member ends that starts at a table. -/
structure Searches {α : Type} (text : α → String) (name : String) (table : Table)
    (result : Step (Checked (Resolved α))) : Prop where
  success : ∃ outcome, result.value = .ok outcome
  maps : ∀ mapped, result.value = .ok (.found mapped) → table.MapsMember name (text mapped)
  looksUps : ReflTransGen LooksUp table result.table
  silent : result.output.edits = []
  reports : ∀ diagnostic ∈ result.output.diagnostics, diagnostic.namesMember = true ∧ table.Disagrees

section Searches

variable {table : Table} {place : Place}

/-- A search in all targets ends well if all answers are mapped names of the member. -/
theorem searches_acrossTargets {α : Type} [DecidableEq α] [ToString α] {text : α → String} {name : String}
    {lookUp : ClassName → Attempt (Resolved α)} {answer : ClassName → Resolved α}
    (stably : LooksUpStably (ReflTransGen LooksUp table) lookUp answer)
    (injective : Function.Injective text)
    (maps : ∀ target mapped, answer target = .found mapped → table.MapsMember name (text mapped)) :
    Searches text name table ((acrossTargets place lookUp).run table) := by
  obtain ⟨outcome, success, first⟩ := run_acrossTargets place stably .refl
  obtain ⟨looksUps, silent⟩ := stays_acrossTargets place stably .refl
  refine ⟨⟨outcome, success⟩, fun mapped isFound => ?_, looksUps, silent, fun diagnostic reported => ?_⟩
  · rw [success, Except.ok.injEq] at isFound
    obtain ⟨_, target, _, _, gives, _⟩ := first.eq_found_iff.1 isFound
    exact maps target mapped gives
  · obtain ⟨names, target, value, other, otherValue, gives, otherGives, apart⟩ :=
      first.exists_different reported
    refine ⟨names, name, text value, text otherValue, fun same => apart (injective same), ?_, ?_⟩
    · exact maps target value gives
    · exact maps other otherValue otherGives

private theorem found_ofOption {μ α : Type} {found : Option μ} {mapped : μ → α} {value : α}
    (isFound : Resolved.ofOption (found.map mapped) = .found value) :
    ∃ mapping, found = some mapping ∧ mapped mapping = value := by
  cases found with
  | none => cases isFound
  | some mapping =>
      cases isFound
      exact ⟨mapping, rfl, rfl⟩

/-- Looking for a field in all targets. -/
theorem searches_findField (sound : table.Sound) (place : Place) (signature : FieldSignature) :
    Searches FieldName.text signature.name.text table ((findField place signature).run table) := by
  refine searches_acrossTargets (stably_lookUpField sound signature) (fun _ _ => FieldName.ext_text)
    fun target mapped isFound => ?_
  obtain ⟨mapping, found, rfl⟩ := found_ofOption isFound
  exact Table.mapsMember_of_resolveField sound found

/-- Looking for a method in all targets. -/
theorem searches_findMethod (table : Table) (place : Place) (signature : MethodSignature) :
    Searches MethodName.text signature.name.text table ((findMethod place signature).run table) := by
  refine searches_acrossTargets (stably_lookUpMethod table signature) (fun _ _ => MethodName.ext_text)
    fun target mapped isFound => ?_
  obtain ⟨mapping, found, rfl⟩ := found_ofOption isFound
  exact Table.mapsMember_of_method? found

/-- Looking for a method in one class. -/
theorem searches_lookUpMethod (table : Table) (owner : ClassName) (signature : MethodSignature) :
    Searches MethodName.text signature.name.text table ((lookUpMethod signature owner).run table) := by
  have value : ((lookUpMethod signature owner).run table).value
      = .ok (.ofOption ((table.method? owner signature).map MethodMapping.mapped)) := rfl
  refine ⟨⟨_, value⟩, fun mapped isFound => ?_, .refl, rfl, by rintro _ ⟨⟩⟩
  rw [value, Except.ok.injEq] at isFound
  obtain ⟨mapping, found, rfl⟩ := found_ofOption isFound
  exact Table.mapsMember_of_method? found

end Searches

/-! ## Answers for references -/

namespace Table

variable {table : Table} {owner other : ClassName} {member image otherImage : MemberReference}

/-- The image of a bare name is a mapped name that the table has for it. -/
theorem Sound.found_bare (sound : table.Sound) {name : MethodName}
    (answer : table.memberAnswer owner (.bare name) = .ok (.found image)) :
    ∃ mapped, image = .bare mapped ∧ table.MapsMember name.text mapped.text := by
  cases present : table.find? owner with
  | none => simp [memberAnswer, present] at answer
  | some entry =>
      simp only [memberAnswer, present, Except.ok.injEq] at answer
      obtain ⟨mapped, rfl, ⟨method, stored, rfl⟩, agree⟩ :=
        (resolveBare_eq_found (sound.soundAt present).members.methods).1 answer
      exact ⟨mapped, rfl, owner, entry, present,
        .inr ⟨method, stored, rfl, congrArg _ (agree method stored rfl)⟩⟩

/-- The image of a method has a mapped name that the table has for it, and the mapped type. -/
theorem found_method {signature : MethodSignature}
    (answer : table.memberAnswer owner (.method signature) = .ok (.found image)) :
    ∃ mapped type, image = .method ⟨mapped, type⟩ ∧ table.mapMethodType signature.type = .ok type
      ∧ table.MapsMember signature.name.text mapped.text := by
  cases found : table.method? owner signature with
  | none => simp [memberAnswer, found] at answer
  | some mapping =>
      simp only [memberAnswer, found] at answer
      obtain ⟨type, maps, isImage⟩ := Checked.map_eq_ok.1 answer
      cases isImage
      exact ⟨mapping.mapped, type, rfl, maps, mapsMember_of_method? found⟩

/-- The image of a field has a mapped name that the table has for it, and the mapped type. -/
theorem found_field {name : FieldName} {type : FieldType}
    (answer : table.memberAnswer owner (.field name type) = .ok (.found image)) :
    ∃ mapped mappedType, image = .field mapped mappedType ∧ table.mapFieldType type = .ok mappedType
      ∧ table.MapsMember name.text mapped.text := by
  cases found : (table.find? owner).bind (·.typedField? name type) with
  | none => simp [memberAnswer, found] at answer
  | some mapped =>
      simp only [memberAnswer, found] at answer
      obtain ⟨mappedType, maps, isImage⟩ := Checked.map_eq_ok.1 answer
      cases isImage
      refine ⟨mapped, mappedType, rfl, maps, ?_⟩
      obtain ⟨entry, present, typed⟩ := Option.bind_eq_some_iff.1 found
      obtain ⟨mapping, stored, rfl⟩ := Option.map_eq_some_iff.1 typed
      rcases Option.or_eq_some_iff.1 stored with own | ⟨_, untyped⟩
      · exact ⟨owner, entry, present, .inl ⟨_, Assoc.mem_of_find? own, rfl, rfl⟩⟩
      · exact ⟨owner, entry, present, .inl ⟨_, Assoc.mem_of_find? untyped, rfl, rfl⟩⟩

/-- Different images of one reference come from members of one name that are mapped in different ways. -/
theorem Sound.disagrees_of_memberAnswers (sound : table.Sound)
    (answer : table.memberAnswer owner member = .ok (.found image))
    (otherAnswer : table.memberAnswer other member = .ok (.found otherImage)) (apart : image ≠ otherImage) :
    table.Disagrees := by
  cases member with
  | bare name =>
      obtain ⟨mapped, rfl, maps⟩ := sound.found_bare answer
      obtain ⟨otherMapped, rfl, otherMaps⟩ := sound.found_bare otherAnswer
      refine ⟨_, _, _, fun same => apart ?_, maps, otherMaps⟩
      rw [MethodName.ext_text same]
  | method signature =>
      obtain ⟨mapped, type, rfl, isType, maps⟩ := found_method answer
      obtain ⟨otherMapped, otherType, rfl, isOtherType, otherMaps⟩ := found_method otherAnswer
      refine ⟨_, _, _, fun same => apart ?_, maps, otherMaps⟩
      rw [MethodName.ext_text same, Except.ok.inj (isType.symm.trans isOtherType)]
  | field name type =>
      obtain ⟨mapped, mappedType, rfl, isType, maps⟩ := found_field answer
      obtain ⟨otherMapped, otherType, rfl, isOtherType, otherMaps⟩ := found_field otherAnswer
      refine ⟨_, _, _, fun same => apart ?_, maps, otherMaps⟩
      rw [FieldName.ext_text same, Except.ok.inj (isType.symm.trans isOtherType)]

/-- A reference is ambiguous only if methods of one name are mapped in different ways. -/
theorem Sound.disagrees_of_ambiguous (sound : table.Sound) {candidates : List String}
    (answer : table.memberAnswer owner member = .ok (.ambiguous candidates)) : table.Disagrees := by
  cases member with
  | bare name =>
      cases present : table.find? owner with
      | none => simp [memberAnswer, present] at answer
      | some entry =>
          simp only [memberAnswer, present, Except.ok.injEq] at answer
          obtain ⟨first, isFirst, second, isSecond, firstNamed, secondNamed, apart⟩ :=
            (resolveBare_eq_ambiguous (sound.soundAt present).members.methods).1 ⟨candidates, answer⟩
          refine ⟨name.text, first.2.mapped.text, second.2.mapped.text,
            fun same => apart (MethodName.ext_text same), ?_, ?_⟩
          · exact ⟨owner, entry, present, .inr ⟨first, isFirst, congrArg _ firstNamed, rfl⟩⟩
          · exact ⟨owner, entry, present, .inr ⟨second, isSecond, congrArg _ secondNamed, rfl⟩⟩
  | method signature =>
      cases found : table.method? owner signature with
      | none => simp [memberAnswer, found] at answer
      | some mapping =>
          simp only [memberAnswer, found] at answer
          obtain ⟨_, _, isImage⟩ := Checked.map_eq_ok.1 answer
          cases isImage
  | field name type =>
      cases found : (table.find? owner).bind (·.typedField? name type) with
      | none => simp [memberAnswer, found] at answer
      | some mapped =>
          simp only [memberAnswer, found] at answer
          obtain ⟨_, _, isImage⟩ := Checked.map_eq_ok.1 answer
          cases isImage

end Table

end MixinLink
