import MixinLink.Proofs.LiteralOrder
import MixinLink.Proofs.Marks
import MixinLink.Proofs.Reachable
import MixinLink.Proofs.References
import MixinLink.Proofs.Visits

/-!
# Injections are renamed as a whole

A literal of an injection stands for a member or a class. Its image under a table is the same kind of
reference, with the mapped name of the member, the mapped type and the mapped class. If no mapped name
has a mark that would be taken for another part of a reference, then the literals of injections are
edited so that reading the new literal gives the image of what the old literal was read as.

Main exports: `Table.MemberImage`, `Table.PointImage`, `mem_edits_remapTargetMethod`,
`mem_edits_remapPoint`, `InjectionsRenamed`, `injectionsRenamed_of_plainNames`.
-/

namespace MixinLink

open Relation (ReflTransGen)

/-! ## Images -/

/-- A member of a class and its image. A bare name has an image if there are methods of that name, and
all of them have the same mapped name. -/
inductive Table.MemberImage (table : Table) (owner : ClassName) :
    MemberReference → MemberReference → Prop where
  | bare {entry : ClassEntry} {name mapped : MethodName} (found : table.find? owner = some entry)
      (exists_named : ∃ method ∈ entry.methods, method.1.name = name)
      (agree : ∀ method ∈ entry.methods, method.1.name = name → method.2.mapped = mapped) :
      MemberImage table owner (.bare name) (.bare mapped)
  | method {signature : MethodSignature} {mapping : MethodMapping} {type : MethodType}
      (stored : table.method? owner signature = some mapping)
      (mapsType : table.mapMethodType signature.type = .ok type) :
      MemberImage table owner (.method signature) (.method ⟨mapping.mapped, type⟩)
  | field {entry : ClassEntry} {name mapped : FieldName} {type mappedType : FieldType}
      (found : table.find? owner = some entry) (stored : entry.typedField? name type = some mapped)
      (mapsType : table.mapFieldType type = .ok mappedType) :
      MemberImage table owner (.field name type) (.field mapped mappedType)

/-- A member and its image in the first of some classes that has one. -/
def Table.FirstImage (table : Table) (targets : List ClassName) (member image : MemberReference) : Prop :=
  ∃ before owner after, targets = before ++ owner :: after
    ∧ table.MemberImage owner member image
    ∧ ∀ earlier ∈ before, ∀ other, ¬table.MemberImage earlier member other

/-- What an injection point refers to and its image. -/
inductive Table.PointImage (table : Table) : PointReference → PointReference → Prop where
  | ofClass {reference : ClassReference} {mapped : ClassName}
      (maps : table.mapClass reference.name = .ok mapped) :
      PointImage table (.ofClass reference) (.ofClass ⟨mapped, reference.spelling.seen mapped⟩)
  | ofMember {owner mapped : ClassName} {member image : MemberReference}
      (maps : table.mapClass owner = .ok mapped) (isImage : table.MemberImage owner member image) :
      PointImage table (.ofMember owner member) (.ofMember mapped image)

/-- The table in which an injection point is looked up: if it refers to a member, the entry of the class
is completed first. -/
def Table.forPoint (table : Table) (hierarchy : Hierarchy) : PointReference → Table
  | .ofClass _ => table
  | .ofMember owner _ => (resolveClass hierarchy owner table).table

/-- Only a class that has an entry has images of members. -/
theorem Table.MemberImage.exists_entry {table : Table} {owner : ClassName} {member image : MemberReference}
    (isImage : table.MemberImage owner member image) : ∃ entry, table.find? owner = some entry := by
  cases isImage with
  | bare found => exact ⟨_, found⟩
  | method stored =>
      obtain ⟨entry, found, _⟩ := Option.bind_eq_some_iff.1 stored
      exact ⟨entry, found⟩
  | field found => exact ⟨_, found⟩

/-- Looking a member up finds its image. -/
theorem memberAnswer_eq_found {table : Table} (sound : table.Sound) {owner : ClassName}
    {member image : MemberReference} :
    table.memberAnswer owner member = .ok (.found image) ↔ table.MemberImage owner member image := by
  constructor
  · intro answer
    cases member with
    | bare name =>
        cases found : table.find? owner with
        | none => simp [Table.memberAnswer, found] at answer
        | some entry =>
            simp only [Table.memberAnswer, found, Except.ok.injEq] at answer
            have keyed := (sound.soundAt found).members.methods
            obtain ⟨mapped, rfl, exists_named, agree⟩ := (resolveBare_eq_found keyed).1 answer
            exact .bare found exists_named agree
    | method signature =>
        simp only [Table.memberAnswer] at answer
        split at answer
        · cases answer
        · rename_i mapping stored
          obtain ⟨type, mapsType, isImage⟩ := Checked.map_eq_ok.1 answer
          cases isImage
          exact .method stored mapsType
    | field name type =>
        simp only [Table.memberAnswer] at answer
        split at answer
        · cases answer
        · rename_i mapped isMapped
          obtain ⟨mappedType, mapsType, isImage⟩ := Checked.map_eq_ok.1 answer
          cases isImage
          obtain ⟨entry, found, stored⟩ := Option.bind_eq_some_iff.1 isMapped
          exact .field found stored mapsType
  · intro isImage
    cases isImage with
    | bare found exists_named agree =>
        simp only [Table.memberAnswer, found, Except.ok.injEq]
        exact (resolveBare_eq_found (sound.soundAt found).members.methods).2 ⟨_, rfl, exists_named, agree⟩
    | method stored mapsType =>
        simp only [Table.memberAnswer, stored, mapsType]
        rfl
    | field found stored mapsType =>
        simp only [Table.memberAnswer, found, stored, Option.bind_some, mapsType]
        rfl

/-- In a sound table an injection point has at most one image. -/
theorem Table.PointImage.unique {table : Table} (sound : table.Sound)
    {reference first second : PointReference} (one : table.PointImage reference first)
    (two : table.PointImage reference second) : first = second := by
  cases one with
  | ofClass maps =>
      cases two with
      | ofClass mapsToo =>
          cases maps.symm.trans mapsToo
          rfl
  | ofMember maps isImage =>
      cases two with
      | ofMember mapsToo isImageToo =>
          cases maps.symm.trans mapsToo
          cases ((memberAnswer_eq_found sound).2 isImage).symm.trans
            ((memberAnswer_eq_found sound).2 isImageToo)
          rfl

/-- The image of a reference that can be read back can be read back. -/
theorem Table.Traced.plain_image {table : Table} (traced : table.Traced) {owner : ClassName}
    {member image : MemberReference} (isImage : table.MemberImage owner member image)
    (plain : member.Plain) : image.Plain := by
  have openParen : '(' ∈ marks := by decide
  have colon : ':' ∈ marks := by decide
  cases isImage with
  | bare found exists_named agree =>
      obtain ⟨method, isMethod, rfl⟩ := exists_named
      have traces : Traces method.1.name.text method.2.mapped.text :=
        (traced.tracedAt found).methods method isMethod
      rw [agree method isMethod rfl] at traces
      exact ⟨fun mark => plain.1 (traces _ openParen mark), fun mark => plain.2 (traces _ colon mark)⟩
  | method stored mapsType =>
      obtain ⟨entry, found, inEntry⟩ := Option.bind_eq_some_iff.1 stored
      have traces := (traced.tracedAt found).methods _ (Assoc.mem_of_find? inEntry)
      exact fun mark => plain (traces _ openParen mark)
  | @field entry name mapped type mappedType found stored mapsType =>
      have traces : Traces name.text mapped.text := by
        obtain ⟨mapping, inEntry, rfl⟩ := Option.map_eq_some_iff.1 stored
        rcases Option.or_eq_some_iff.1 inEntry with typed | ⟨_, untyped⟩
        · exact (traced.tracedAt found).fields _ (Assoc.mem_of_find? typed)
        · exact (traced.tracedAt found).fields _ (Assoc.mem_of_find? untyped)
      obtain ⟨noParen, noColon, typePlain⟩ := plain
      exact ⟨fun mark => noParen (traces _ openParen mark), fun mark => noColon (traces _ colon mark),
        traced.mapFieldType mapsType typePlain⟩

/-- The image of what a text was read as can be read back. -/
theorem Table.Traced.parse_pointImage {table : Table} (traced : table.Traced) {text : String}
    {reference image : PointReference} (reads : PointReference.parse text = .ok reference)
    (isImage : table.PointImage reference image) : PointReference.parse image.text = .ok image := by
  cases isImage with
  | @ofClass reference mapped maps =>
      have back := PointReference.parse_write reference.spelling mapped
      rw [PointReference.text_of_parse back]
      exact back
  | ofMember maps isImage =>
      have plain := traced.plain_image isImage (PointReference.plain_of_parse reads)
      exact PointReference.parse_writePointMember _ plain

/-! ## Edits of single literals -/

/-- The edit gives the literal another text, which is read as the image. -/
structure LiteralEdit.Rewrites {α : Type} (parse : String → Checked α) (literal : StringLiteral) (image : α)
    (edit : LiteralEdit) : Prop where
  span : edit.span = literal.span
  before : edit.before = literal.value
  changes : edit.before ≠ edit.after
  parses : parse edit.after = .ok image

section Edits

variable {hierarchy : Hierarchy} {place : Place} {edit : LiteralEdit} {now : Table}

/-- A literal is edited if its text changes. -/
theorem mem_edits_lift_edit {literal : StringLiteral} {after : String} :
    edit ∈ ((liftM (Remap.edit literal after) : Attempt Unit).run now).output.edits
      ↔ literal.value ≠ after ∧ edit = ⟨literal.span, literal.value, after⟩ := by
  rw [Attempt.run_lift, Output.edits_append, Output.edits_empty, List.append_nil, Remap.mem_edits_edit]

/-- If only one text is read as the image, the literal gets that text. -/
theorem LiteralEdit.rewrites_iff {α : Type} {parse : String → Checked α} {literal : StringLiteral}
    {image : α} {text : String} (reads : ∀ {written}, parse written = .ok image ↔ text = written) :
    edit.Rewrites parse literal image
      ↔ literal.value ≠ text ∧ edit = ⟨literal.span, literal.value, text⟩ := by
  constructor
  · rintro ⟨sameSpan, sameBefore, changes, parses⟩
    have isText := reads.1 parses
    obtain ⟨span, before, after⟩ := edit
    cases sameSpan
    cases sameBefore
    cases isText
    exact ⟨changes, rfl⟩
  · rintro ⟨changes, rfl⟩
    exact ⟨rfl, rfl, changes, reads.2 rfl⟩

/-- A target method of an injection is edited to the image in the first target that has one. -/
theorem mem_edits_remapTargetMethod {target : ParsedLiteral MemberReference} (sound : now.Sound) :
    edit ∈ ((remapTargetMethod place target).run now).output.edits
      ↔ ∃ member image, target.parsed = some member ∧ now.FirstImage place.targets member image
        ∧ target.literal.value ≠ image.text
        ∧ edit = ⟨target.literal.span, target.literal.value, image.text⟩ := by
  have first : ∀ member image,
      ((acrossTargets place (resolveMember · member)).run now).value = .ok (.found image)
        ↔ now.FirstImage place.targets member image := by
    intro member image
    rw [found_acrossTargets sound]
    simp only [Table.FirstImage, memberAnswer_eq_found sound, ne_eq]
  unfold remapTargetMethod
  cases parsed : target.parsed with
  | none => simp
  | some member =>
      have silent : Attempt.EditsAmong [] (acrossTargets place (resolveMember · member)) :=
        .acrossTargets fun owner => editsAmong_resolveMember owner member
      constructor
      · intro isEdit
        rcases Attempt.mem_edits_bind.1 isEdit with early | ⟨resolved, isResolved, later⟩
        · rw [(silent now).eq_nil] at early
          cases early
        · cases resolved with
          | missing => cases later
          | ambiguous candidates => cases later
          | found image =>
              exact ⟨member, image, rfl, (first member image).1 isResolved, mem_edits_lift_edit.1 later⟩
      · rintro ⟨_, image, isMember, isFirst, changes⟩
        cases isMember
        refine Attempt.mem_edits_bind.2 (.inr ⟨_, (first member image).2 isFirst, ?_⟩)
        exact mem_edits_lift_edit.2 changes

/-- A literal that names a class is edited to the mapped class, in the same spelling. -/
theorem mem_edits_remapClassLiteral {literal : StringLiteral} {reference : ClassReference}
    (written : reference.text = literal.value) :
    edit ∈ ((remapClassLiteral literal reference).run now).output.edits
      ↔ ∃ mapped, now.mapClass reference.name = .ok mapped ∧ literal.value ≠ reference.write mapped
        ∧ edit = ⟨literal.span, literal.value, reference.write mapped⟩ := by
  constructor
  · intro isEdit
    cases maps : now.mapClass reference.name with
    | ok mapped =>
        rw [run_remapClassLiteral written maps] at isEdit
        exact ⟨mapped, rfl, mem_edits_lift_edit.1 isEdit⟩
    | error failure =>
        rw [run_remapClassLiteral_of_error maps] at isEdit
        cases isEdit
  · rintro ⟨mapped, maps, changes⟩
    rw [run_remapClassLiteral written maps]
    exact mem_edits_lift_edit.2 changes

/-- A class that is not known has no entry. -/
theorem find?_of_unknown {name : ClassName} (unknown : (resolveClass hierarchy name now).value = false) :
    (resolveClass hierarchy name now).table.find? name = none := by
  rw [run_resolveClass] at unknown ⊢
  split at unknown
  · rename_i absent
    rw [if_pos absent]
    rw [Bool.and_eq_true] at absent
    exact Option.isNone_iff_eq_none.1 absent.1
  · cases unknown

/-- The member of an injection point is edited to its image. -/
theorem mem_edits_pointMember {point : PointData} {literal : StringLiteral} {owner : ClassName}
    {member : MemberReference} (sound : now.Sound) :
    edit ∈ ((remapPointMember place point literal owner member).run now).output.edits
      ↔ ∃ image mapped, now.MemberImage owner member image ∧ now.mapClass owner = .ok mapped
        ∧ literal.value ≠ writePointMember mapped image
        ∧ edit = ⟨literal.span, literal.value, writePointMember mapped image⟩ := by
  have sameClass := mapClass_of_looksUps (run_resolveMember owner member now).2 owner
  unfold remapPointMember
  rw [Attempt.mem_edits_bind, value_resolveMember sound]
  constructor
  · rintro (early | ⟨resolved, isResolved, later⟩)
    · rw [(editsAmong_resolveMember owner member now).eq_nil] at early
      cases early
    · cases resolved with
      | missing => cases later
      | ambiguous candidates => cases later
      | found image =>
          simp only [Attempt.run_bind_table, sameClass] at later
          rcases Attempt.mem_edits_bind.1 later with early | ⟨mapped, success, isEdit⟩
          · cases early
          · exact ⟨image, mapped, (memberAnswer_eq_found sound).1 isResolved, success,
              mem_edits_lift_edit.1 isEdit⟩
  · rintro ⟨image, mapped, isImage, success, changes⟩
    refine .inr ⟨_, (memberAnswer_eq_found sound).2 isImage, ?_⟩
    simp only [Attempt.run_bind_table, sameClass]
    exact Attempt.mem_edits_bind.2 (.inr ⟨mapped, success, mem_edits_lift_edit.2 changes⟩)

section Point

variable {point : PointData} {target : ParsedLiteral PointReference}

/-- An injection point that refers to a class is edited to its image. -/
theorem mem_edits_remapPoint_class {reference : ClassReference} (isTarget : point.target = some target)
    (parsed : target.parsed = some (.ofClass reference)) (written : reference.text = target.literal.value) :
    edit ∈ ((remapPoint hierarchy place point).run now).output.edits
      ↔ ∃ image, now.PointImage (.ofClass reference) image ∧ target.literal.value ≠ image.text
        ∧ edit = ⟨target.literal.span, target.literal.value, image.text⟩ := by
  have spelled : ∀ mapped, (PointReference.ofClass ⟨mapped, reference.spelling.seen mapped⟩).text
      = reference.write mapped :=
    fun mapped => PointReference.text_of_parse (PointReference.parse_write reference.spelling mapped)
  simp only [remapPoint, isTarget, parsed]
  rw [mem_edits_remapClassLiteral written]
  constructor
  · rintro ⟨mapped, maps, changes⟩
    refine ⟨_, .ofClass maps, ?_⟩
    rw [spelled]
    exact changes
  · rintro ⟨_, isImage, changes⟩
    cases isImage with
    | ofClass maps =>
        rw [spelled] at changes
        exact ⟨_, maps, changes⟩

/-- Resolving a class completes its entry at most. -/
theorem evolves_resolveClass (name : ClassName) :
    Evolves hierarchy [] now (resolveClass hierarchy name now).table := by
  rw [run_resolveClass]
  split
  · exact .refl
  · exact .single (.complete now name)

/-- An injection point that refers to a member is edited to its image, once the class is completed. -/
theorem mem_edits_remapPoint_member {owner : ClassName} {member : MemberReference} (sound : now.Sound)
    (isTarget : point.target = some target) (parsed : target.parsed = some (.ofMember owner member)) :
    edit ∈ ((remapPoint hierarchy place point).run now).output.edits
      ↔ ∃ image, (resolveClass hierarchy owner now).table.PointImage (.ofMember owner member) image
        ∧ target.literal.value ≠ image.text
        ∧ edit = ⟨target.literal.span, target.literal.value, image.text⟩ := by
  simp only [remapPoint, isTarget, parsed]
  have resolvedSound := sound.evolves (@evolves_resolveClass hierarchy now owner)
  rw [Attempt.mem_edits_bind, (Attempt.EditsAmong.lift (.resolveClass hierarchy owner) now).eq_nil,
    Attempt.run_lift]
  constructor
  · rintro (early | ⟨known, _, later⟩)
    · cases early
    · cases known with
      | false => cases later
      | true =>
          obtain ⟨image, mapped, isImage, maps, changes⟩ :=
            (mem_edits_pointMember resolvedSound).1 later
          exact ⟨_, .ofMember maps isImage, changes⟩
  · rintro ⟨_, isImage, changes⟩
    cases isImage with
    | ofMember maps isImage =>
        refine .inr ⟨_, rfl, ?_⟩
        cases known : (resolveClass hierarchy owner now).value with
        | false =>
            -- without an entry there is no image
            have absent := find?_of_unknown known
            obtain ⟨entry, found⟩ := isImage.exists_entry
            rw [absent] at found
            cases found
        | true =>
            exact (mem_edits_pointMember resolvedSound).2 ⟨_, _, isImage, maps, changes⟩

/-- An injection point is edited to its image. -/
theorem mem_edits_remapPoint (sound : now.Sound) (readBy : point.ReadByParse) :
    edit ∈ ((remapPoint hierarchy place point).run now).output.edits
      ↔ ∃ target reference image, point.target = some target ∧ target.parsed = some reference
        ∧ (now.forPoint hierarchy reference).PointImage reference image
        ∧ target.literal.value ≠ image.text
        ∧ edit = ⟨target.literal.span, target.literal.value, image.text⟩ := by
  cases isTarget : point.target with
  | none => simp [remapPoint, isTarget]
  | some target =>
      cases parsed : target.parsed with
      | none => simp [remapPoint, isTarget, parsed]
      | some reference =>
          have only : (∃ image, (now.forPoint hierarchy reference).PointImage reference image
                ∧ target.literal.value ≠ image.text
                ∧ edit = ⟨target.literal.span, target.literal.value, image.text⟩)
              ↔ ∃ other found image, some target = some other ∧ other.parsed = some found
                ∧ (now.forPoint hierarchy found).PointImage found image
                ∧ other.literal.value ≠ image.text
                ∧ edit = ⟨other.literal.span, other.literal.value, image.text⟩ := by
            simp [parsed]
          rw [← only]
          cases reference with
          | ofClass reference =>
              have reads := (readBy target isTarget).parsed_eq_some.1 parsed
              exact mem_edits_remapPoint_class isTarget parsed (PointReference.text_of_parse reads)
          | ofMember owner member => exact mem_edits_remapPoint_member sound isTarget parsed

end Point

end Edits

/-! ## Edits of a source file -/

section Unit

variable {hierarchy : Hierarchy} {unit : SourceUnit} {start now : Table} {place : Place}

/-- What a target method of an injection is edited to is read as its image. -/
theorem mem_edits_of_targetMethod {target : ParsedLiteral MemberReference} (sound : now.Sound)
    (traced : now.Traced) (readBy : target.ReadBy MemberReference.parse) (edit : LiteralEdit) :
    edit ∈ (Visit.targetMethod place target).edits hierarchy now
      ↔ ∃ member image, MemberReference.parse target.literal.value = .ok member
        ∧ now.FirstImage place.targets member image
        ∧ edit.Rewrites MemberReference.parse target.literal image := by
  refine (mem_edits_remapTargetMethod sound).trans ?_
  refine exists_congr fun member => exists_congr fun image => ?_
  rw [readBy.parsed_eq_some]
  refine and_congr_right fun reads => and_congr_right fun isFirst => ?_
  obtain ⟨_, owner, _, _, isImage, _⟩ := isFirst
  have plain := traced.plain_image isImage (MemberReference.parse_eq_ok.1 reads).1
  refine (LiteralEdit.rewrites_iff fun {written} => ?_).symm
  rw [MemberReference.parse_eq_ok]
  exact and_iff_right plain

/-- What an injection point is edited to is read as its image. -/
theorem mem_edits_of_point {point : PointData} (sound : now.Sound) (traced : now.Traced)
    (readBy : point.ReadByParse) (edit : LiteralEdit) :
    edit ∈ (Visit.point place point).edits hierarchy now
      ↔ ∃ target reference image, point.target = some target
        ∧ PointReference.parse target.literal.value = .ok reference
        ∧ (now.forPoint hierarchy reference).PointImage reference image
        ∧ edit.Rewrites PointReference.parse target.literal image := by
  refine (mem_edits_remapPoint sound readBy).trans ?_
  refine exists_congr fun target => exists_congr fun reference => exists_congr fun image => ?_
  apply and_congr_right
  intro isTarget
  rw [(readBy target isTarget).parsed_eq_some]
  refine and_congr_right fun reads => and_congr_right fun isImage => ?_
  have tracedHere : (now.forPoint hierarchy reference).Traced := by
    cases reference with
    | ofClass reference => exact traced
    | ofMember owner member => exact traced.evolves (evolves_resolveClass owner)
  refine (LiteralEdit.rewrites_iff fun {written} => ⟨PointReference.text_of_parse, ?_⟩).symm
  rintro rfl
  exact tracedHere.parse_pointImage reads isImage

end Unit

/-- Remapping a source file edits the literals that it visits. A target method of an injection gets a text
that is read as its image in the first target of the mixin that has one, and an injection point gets a
text that is read as its image. Where there is no image, or the text would stay, there is no edit. -/
structure InjectionsRenamed (hierarchy : Hierarchy) (unit : SourceUnit) (start : Table) : Prop where
  edits : ∀ edit, edit ∈ (remapUnit hierarchy start unit).value.1.edits
    ↔ ∃ visit now, Visited hierarchy unit start visit now ∧ edit ∈ visit.edits hierarchy now
  targetMethods : ∀ place target now, Visited hierarchy unit start (.targetMethod place target) now →
    ∀ edit, edit ∈ (Visit.targetMethod place target).edits hierarchy now
      ↔ ∃ member image, MemberReference.parse target.literal.value = .ok member
        ∧ now.FirstImage place.targets member image
        ∧ edit.Rewrites MemberReference.parse target.literal image
  points : ∀ place point now, Visited hierarchy unit start (.point place point) now →
    ∀ edit, edit ∈ (Visit.point place point).edits hierarchy now
      ↔ ∃ target reference image, point.target = some target
        ∧ PointReference.parse target.literal.value = .ok reference
        ∧ (now.forPoint hierarchy reference).PointImage reference image
        ∧ edit.Rewrites PointReference.parse target.literal image

/-- If no mapped name has a mark, all literals of injections are renamed as a whole. -/
theorem injectionsRenamed_of_plainNames {start : Table} (reachable : start.Reachable)
    (plain : start.PlainNames) (hierarchy : Hierarchy) (unit : SourceUnit) :
    InjectionsRenamed hierarchy unit start where
  edits _ := mem_edits_remapUnit
  targetMethods _ _ _ visited := by
    have evolves := visited.evolves reachable.sound
    have sound := reachable.sound.evolves evolves
    have traced := plain.traced.evolves evolves
    exact mem_edits_of_targetMethod sound traced visited.targetMethod_readBy
  points _ _ _ visited := by
    have evolves := visited.evolves reachable.sound
    have sound := reachable.sound.evolves evolves
    have traced := plain.traced.evolves evolves
    exact mem_edits_of_point sound traced visited.point_readBy

/-! ## An injection into `p/a` -/

def hookTarget : ClassName :=
  ⟨"p/a", by decide +kernel⟩

def hookOperations : List Operation :=
  [.createClass hookTarget, .renameClass hookTarget "q/Alpha",
    .mapField hookTarget ⟨⟨"c", by decide +kernel⟩, none⟩ ⟨"count", by decide +kernel⟩,
    .mapMethod hookTarget ⟨⟨"b", by decide +kernel⟩, ⟨[.ofClass hookTarget], none⟩⟩
      ⟨"run", by decide +kernel⟩]

def hookTable : Table :=
  (hookOperations.foldl Operation.apply (.empty .standard)).update hookTarget (ClassEntry.completeWith [] [])

def hookMethod : MethodDecl :=
  { name := ⟨"hook", by decide +kernel⟩
    type := ⟨[], none⟩
    isStatic := false
    annotations :=
      [⟨AnnotationName.inject, ⟨20, 90⟩,
        [("method", .string ⟨"b(Lp/a;)V", ⟨30, 41⟩⟩),
          ("at", .nested AnnotationName.point ⟨50, 89⟩
            [("value", .string ⟨"FIELD", ⟨54, 61⟩⟩), ("target", .string ⟨"Lp/a;c:I", ⟨70, 80⟩⟩)])]⟩] }

def hookUnit : SourceUnit :=
  ⟨"m/Hook.java",
    [.mk ⟨"m/Hook", by decide +kernel⟩
      [⟨AnnotationName.mixin, ⟨0, 15⟩, [("value", .classLiteral hookTarget)]⟩] [] [hookMethod] []]⟩

/-- The field is found by the mapping that leaves its type open. -/
theorem injectionsRenamed_hook :
    hookTable.Reachable ∧ hookTable.PlainNames
      ∧ (remapUnit .empty hookTable hookUnit).value.1.edits
        = [⟨⟨30, 41⟩, "b(Lp/a;)V", "run(Lq/Alpha;)V"⟩, ⟨⟨70, 80⟩, "Lp/a;c:I", "Lq/Alpha;count:I"⟩]
      ∧ InjectionsRenamed .empty hookUnit hookTable := by
  have reachable : hookTable.Reachable := by
    have completed :=
      ((Table.Reachable.empty .standard).run hookOperations).apply (.complete .empty hookTarget)
    rwa [Operation.apply, Table.complete_of_unknown rfl (by decide +kernel)] at completed
  have plain : hookTable.PlainNames := by decide +kernel
  exact ⟨reachable, plain, by decide +kernel,
    injectionsRenamed_of_plainNames reachable plain .empty hookUnit⟩

end MixinLink
