import MixinLink.Proofs.LiteralSites
import MixinLink.Proofs.Searches
import MixinLink.Remapping.Units

/-!
# What literals are edited to

Four parts of remapping edit a literal of an injection, of a factory or of a mixin. From a sound
table none of them fails. The new text is read off the table as it was before: the mapped class, or
the image of the member that some class has for it. All else that they do is to look up fields, and
to report members of one name that are mapped in different ways.

Main exports: `Table.Rewords`, `Rewording`, `rewording_remapClassLiteral`, `rewording_remapTargetMethod`,
`rewording_remapPointMember`, `rewording_remapPrivateTarget`.
-/

namespace MixinLink

open Relation (ReflTransGen)

/-- The texts that a table has to offer for the text of a literal. -/
inductive Table.Rewords (table : Table) : String → String → Prop where
  /-- The literal is the name of a member. -/
  | name {name mapped : String} (maps : table.MapsMember name mapped) : Rewords table name mapped
  /-- The literal is a class. -/
  | ofClass {reference : ClassReference} {mapped : ClassName}
      (maps : table.mapClass reference.name = .ok mapped) :
      Rewords table reference.text (reference.write mapped)
  /-- The literal is a class that has an entry. -/
  | entry {text : String} {reference : ClassReference} {entry : ClassEntry} {below : ClassForest}
      {mapped : ClassName} (reads : ClassReference.parse text = .ok reference)
      (found : table.literalNode? text = some (entry, below))
      (maps : table.mapClass entry.name = .ok mapped) :
      Rewords table text (reference.write mapped)
  /-- The literal is a member of some class. -/
  | member {text : String} {member image : MemberReference} {owner : ClassName}
      (reads : MemberReference.parse text = .ok member)
      (answer : table.memberAnswer owner member = .ok (.found image)) : Rewords table text image.text
  /-- The literal is a class and a member of it. -/
  | pointMember {text : String} {owner mapped : ClassName} {member image : MemberReference}
      (reads : PointReference.parse text = .ok (.ofMember owner member))
      (answer : table.memberAnswer owner member = .ok (.found image))
      (maps : table.mapClass owner = .ok mapped) : Rewords table text (writePointMember mapped image)

/-- How remapping a literal ends that starts at a table. -/
structure Rewording (literal : StringLiteral) (start : Table) (result : Step (Checked Unit)) : Prop where
  success : result.value = .ok ()
  looksUps : ReflTransGen LooksUp start result.table
  edits : ∀ edit ∈ result.output.edits, ∃ text, start.Rewords literal.value text ∧ literal.value ≠ text
    ∧ edit = ⟨literal.span, literal.value, text⟩
  reports : ∀ diagnostic ∈ result.output.diagnostics, diagnostic.namesMember = true ∧ start.Disagrees

namespace Rewording

variable {literal : StringLiteral} {start now : Table}

/-- A literal that is left alone. -/
theorem pure (reached : ReflTransGen LooksUp start now) :
    Rewording literal start ((pure () : Attempt Unit).run now) :=
  ⟨rfl, reached, by rintro _ ⟨⟩, by rintro _ ⟨⟩⟩

/-- A literal that is left alone, as the log tells. -/
theorem log (reached : ReflTransGen LooksUp start now) (level : Level) (text : String) :
    Rewording literal start ((liftM (Remap.log level text) : Attempt Unit).run now) :=
  ⟨rfl, reached, by rintro _ ⟨⟩, by rintro _ ⟨⟩⟩

/-- A literal that is edited to a text that the table has to offer. -/
theorem edit (reached : ReflTransGen LooksUp start now) {text : String}
    (rewords : start.Rewords literal.value text) :
    Rewording literal start ((liftM (Remap.edit literal text) : Attempt Unit).run now) := by
  rw [Attempt.run_lift]
  refine ⟨rfl, ?_, fun edit member => ?_, ?_⟩
  · simpa using reached
  · simp only [Output.append_empty] at member
    obtain ⟨differs, isEdit⟩ := Remap.mem_edits_edit.1 member
    exact ⟨text, rewords, differs, isEdit⟩
  · simp

/-- A literal that is reported as ambiguous. -/
theorem ambiguous (reached : ReflTransGen LooksUp start now) (disagrees : start.Disagrees) (place : Place)
    (candidates : List String) :
    Rewording literal start ((liftM (reportAmbiguous place literal candidates) : Attempt Unit).run now) := by
  refine ⟨rfl, reached, by rintro _ ⟨⟩, fun diagnostic member => ?_⟩
  rw [List.mem_singleton.1 member]
  exact ⟨rfl, disagrees⟩

/-- A literal that is edited after some look-ups. -/
theorem bind {α : Type} {first : Attempt α} {rest : α → Attempt Unit} {value : α}
    (success : (first.run start).value = .ok value) (silent : (first.run start).output.edits = [])
    (reports : ∀ diagnostic ∈ (first.run start).output.diagnostics,
      diagnostic.namesMember = true ∧ start.Disagrees)
    (ended : Rewording literal start ((rest value).run (first.run start).table)) :
    Rewording literal start ((first >>= rest).run start) := by
  rw [Attempt.run_bind_of_ok success]
  refine ⟨ended.success, ended.looksUps, fun edit member => ?_, fun diagnostic member => ?_⟩
  · rw [Output.edits_append, silent] at member
    exact ended.edits edit member
  · exact (List.mem_append.1 member).elim (reports diagnostic) (ended.reports diagnostic)

end Rewording

section Atoms

variable {table : Table} {place : Place}

/-- Where a class is mapped to a name, a literal that names the class is edited to that name. -/
theorem run_remapClassLiteral {literal : StringLiteral} {reference : ClassReference} {mapped : ClassName}
    (written : reference.text = literal.value) (maps : table.mapClass reference.name = .ok mapped) :
    (remapClassLiteral literal reference).run table
      = (liftM (Remap.edit literal (reference.write mapped)) : Attempt Unit).run table := by
  unfold remapClassLiteral
  rw [Attempt.run_bind_table]
  unfold Table.mapClass at maps
  cases result : table.mapClass? reference.name with
  | error failure => simp [result] at maps
  | ok image =>
      rw [Attempt.run_bind_check rfl]
      simp only [result] at maps
      cases image with
      | some image =>
          cases maps
          rfl
      | none =>
          -- the class keeps its name, and the literal is how that name is written
          cases maps
          have same : literal.value = reference.write reference.name := written.symm
          unfold Remap.edit LiteralEdit.plan?
          rw [if_pos same]
          rfl

/-- Where a class is not mapped, a literal that names the class is left alone. -/
theorem run_remapClassLiteral_of_error {literal : StringLiteral} {reference : ClassReference}
    {failure : Failure} (fails : table.mapClass reference.name = .error failure) :
    (remapClassLiteral literal reference).run table = ⟨.error failure, table, .empty, []⟩ := by
  unfold remapClassLiteral
  rw [Attempt.run_bind_table]
  unfold Table.mapClass at fails
  cases result : table.mapClass? reference.name with
  | error failure =>
      simp only [result] at fails
      cases fails
      rfl
  | ok image =>
      simp only [result] at fails
      cases image <;> cases fails

/-- A literal that names a class. -/
theorem rewording_remapClassLiteral (sound : table.Sound) {literal : StringLiteral}
    {reference : ClassReference} (written : reference.text = literal.value) :
    Rewording literal table ((remapClassLiteral literal reference).run table) := by
  obtain ⟨mapped, maps⟩ := sound.exists_mapClass reference.name
  rw [run_remapClassLiteral written maps]
  exact .edit .refl (written ▸ .ofClass maps)

/-- A string that names a target of a mixin. -/
theorem rewording_remapPrivateTarget (sound : table.Sound) {target : ParsedLiteral ClassReference}
    (readBy : target.ReadBy ClassReference.parse) :
    Rewording target.literal table ((remapPrivateTarget target).run table) := by
  unfold remapPrivateTarget
  cases parsed : target.parsed with
  | none => exact .pure .refl
  | some reference =>
      dsimp only
      rw [Attempt.run_bind_table]
      cases found : table.literalNode? target.literal.value with
      | none => exact .pure .refl
      | some node =>
          obtain ⟨mapped, maps⟩ := sound.exists_mapClass node.1.name
          rw [Attempt.run_bind_check maps]
          exact .edit .refl (.entry (readBy.parsed_eq_some.1 parsed) found maps)

/-- A target method of an injection. -/
theorem rewording_remapTargetMethod (sound : table.Sound) {target : ParsedLiteral MemberReference}
    (readBy : target.ReadBy MemberReference.parse) :
    Rewording target.literal table ((remapTargetMethod place target).run table) := by
  unfold remapTargetMethod
  cases parsed : target.parsed with
  | none => exact .pure .refl
  | some member =>
      obtain ⟨answer, answers, stably⟩ := sound.exists_memberAnswers member
      obtain ⟨outcome, success, first⟩ := run_acrossTargets place stably .refl
      obtain ⟨reached, silent⟩ := stays_acrossTargets place stably .refl
      refine .bind success silent (fun diagnostic reported => ?_) ?_
      · obtain ⟨names, one, image, other, otherImage, gives, otherGives, apart⟩ :=
          first.exists_different reported
        exact ⟨names, sound.disagrees_of_memberAnswers ((answers one).trans (congrArg _ gives))
          ((answers other).trans (congrArg _ otherGives)) apart⟩
      · cases outcome with
        | missing => exact .log reached _ _
        | ambiguous candidates =>
            obtain ⟨owner, gives⟩ := first.exists_ambiguous
            have disagrees := sound.disagrees_of_ambiguous ((answers owner).trans (congrArg _ gives))
            exact .ambiguous reached disagrees place candidates
        | found image =>
            obtain ⟨_, owner, _, _, gives, _⟩ := first.eq_found_iff.1 rfl
            exact .edit reached (.member (readBy.parsed_eq_some.1 parsed)
              ((answers owner).trans (congrArg _ gives)))

/-- Looking up fields does not change how classes are mapped. -/
theorem mapClass_of_looksUps {after : Table} (lookedUp : ReflTransGen LooksUp table after)
    (name : ClassName) :
    after.mapClass name = table.mapClass name := by
  induction lookedUp with
  | refl => rfl
  | tail _ last ih =>
      obtain ⟨owner, signature, rfl⟩ := last
      rw [Table.mapClass_resolveField, ih]

/-- An injection point at a member of a class. -/
theorem rewording_remapPointMember (sound : table.Sound) {point : PointData} {literal : StringLiteral}
    {owner : ClassName} {member : MemberReference}
    (reads : PointReference.parse literal.value = .ok (.ofMember owner member)) :
    Rewording literal table ((remapPointMember place point literal owner member).run table) := by
  obtain ⟨quiet, reached⟩ := run_resolveMember owner member table
  obtain ⟨resolved, answer⟩ := sound.exists_memberAnswer owner member
  refine .bind ((value_resolveMember sound owner member).trans answer) (by rw [quiet]; rfl)
    (by rw [quiet]; rintro _ ⟨⟩) ?_
  cases resolved with
  | missing => exact .log reached _ _
  | ambiguous candidates => exact .ambiguous reached (sound.disagrees_of_ambiguous answer) place candidates
  | found image =>
      obtain ⟨mapped, maps⟩ := sound.exists_mapClass owner
      dsimp only
      rw [Attempt.run_bind_table, Attempt.run_bind_check ((mapClass_of_looksUps reached owner).trans maps)]
      exact .edit reached (.pointMember reads answer maps)

end Atoms

end MixinLink
