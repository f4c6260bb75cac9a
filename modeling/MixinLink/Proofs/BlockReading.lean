import MixinLink.Proofs.LineReading
import MixinLink.Proofs.Rows

/-!
# Reading blocks of rows

A block is a class row and the rows of members below it. Reading the rows of a block changes the entry
of its class only. The rows of members are always accepted; the class row is accepted if its second name
is left out, or is a class name whose last part can be the name of a nested class where one is needed.

Main exports: `Tiny.Accepts`, `Tiny.RowBlock`, `Tiny.run_blocks_of_accepted`, `Tiny.accepted_of_run_blocks`.
-/

namespace MixinLink.Tiny

/-! ## Class rows -/

/-- The class can have this text as its deobfuscated name on a class row. -/
def Accepts (name : ClassName) (text : String) : Prop :=
  text = "" ∨ ∃ seen : ClassName, seen.text = text ∧ (name.isInner = true → '$' ∉ seen.lastPart.toList)

/-- A class row with a name and the text of its deobfuscated name. -/
def classRow (name : ClassName) (text : String) : Row :=
  ⟨0, "c", [name.text, text]⟩

/-- What a class row does to the entry of its class. -/
def nameClass (name : ClassName) (text : String) (entry : ClassEntry) : ClassEntry :=
  match ClassName.parse text with
  | .ok seen => { entry with mapped := storedPart name seen }
  | .error _ => entry

private theorem nameClass_empty (name : ClassName) : nameClass name "" = id := by
  have invalid : ClassName.parse "" = .error ⟨[.onValue ""], .invalidClassName⟩ := dif_neg (by decide)
  funext entry
  rw [nameClass, invalid]
  rfl

/-- A class line gives the entry the part of the name that is stored. -/
theorem nameClass_text (name seen : ClassName) :
    nameClass name seen.text = fun entry => { entry with mapped := storedPart name seen } := by
  funext entry
  rw [nameClass, ClassName.parse_eq_ok.2 rfl]

/-- A class row is read if its class accepts the text, and changes the entry of the class. -/
theorem readClass_row {table : Table} (sound : table.Sound) {name : ClassName} {text : String} {number : Nat}
    {result : ClassName × Table} :
    readClass table ((classRow name text).line number) = .ok result
      ↔ Accepts name text ∧ result = (name, table.update name (nameClass name text)) := by
  have fields : ((classRow name text).line number).rest = [name.text, text] := rfl
  rw [readClass_eq_ok sound]
  constructor
  · rintro ⟨other, mapped, ⟨written, plain⟩, rfl⟩
    rw [fields, nameFields_pair ClassName.ext_text] at written
    obtain ⟨rfl, ⟨rfl, rfl⟩ | ⟨seen, rfl, rfl⟩⟩ := written
    · rw [nameClass_empty]
      exact ⟨.inl rfl, rfl⟩
    · rw [nameClass_text]
      exact ⟨.inr ⟨seen, rfl, plain seen rfl⟩, rfl⟩
  · rintro ⟨rfl | ⟨seen, rfl, plain⟩, rfl⟩
    · rw [nameClass_empty]
      exact ⟨name, none, ⟨.empty name, by simp⟩, rfl⟩
    · rw [nameClass_text]
      refine ⟨name, some seen, ⟨.named name seen, ?_⟩, rfl⟩
      rintro _ ⟨⟩
      exact plain

/-! ## Member rows -/

namespace MemberRow

/-- The member as a row. -/
def row : MemberRow → Row
  | field name type mapped =>
    ⟨1, "f", [type.descriptor, name.text, (mapped.map FieldName.text).getD ""]⟩
  | method signature mapped =>
    ⟨1, "m", [signature.type.descriptor, signature.name.text, (mapped.map MethodName.text).getD ""]⟩

end MemberRow

/-- The second name of a row may be left out. -/
theorem nameFields_getD {α : Type} (text : α → String) (name : α) (mapped : Option α) :
    NameFields text [text name, (mapped.map text).getD ""] name mapped := by
  cases mapped with
  | none => exact .empty name
  | some other => exact .named name other

/-- The row of a member is always accepted. -/
theorem readMember_row (table : Table) (owner : ClassName) (member : MemberRow) (number : Nat) :
    readMember table owner (member.row.line number) = .ok (table.update owner member.add) := by
  refine readMember_eq_ok.2 (.inr ⟨member, ?_, rfl⟩)
  cases member with
  | field name type mapped => exact .field rfl rfl (nameFields_getD FieldName.text name mapped)
  | method signature mapped => exact .method rfl rfl (nameFields_getD MethodName.text signature.name mapped)

/-! ## Blocks -/

private theorem Progress.step_class (progress : Progress) (name : ClassName) (text : String) (number : Nat) :
    progress.step ((classRow name text).line number)
      = match readClass progress.table ((classRow name text).line number) with
        | .error failure => Progress.refuse [] (failure.within (.inLine number))
        | .ok (owner, table) => .ok ⟨table, [⟨number, some owner⟩]⟩ := by
  have noIndent : ((classRow name text).line number).indent = 0 := rfl
  have isClass : ((classRow name text).line number).head = "c" := rfl
  rw [Progress.step, noIndent, if_neg (Nat.not_lt_zero _)]
  simp only [List.take_zero, Progress.readContent, isClass, if_true]
  cases readClass progress.table ((classRow name text).line number) with
  | error failure => rfl
  | ok result => rfl

private theorem Progress.step_member {progress : Progress} {owner : ClassName} {start : Nat}
    {more : List OpenLine} (opened : progress.opened = ⟨start, some owner⟩ :: more) (member : MemberRow)
    (number : Nat) :
    progress.step (member.row.line number)
      = .ok ⟨progress.table.update owner member.add, [⟨start, some owner⟩, ⟨number, none⟩]⟩ := by
  have indented : (member.row.line number).indent = 1 := by
    cases member <;> rfl
  rw [Progress.step, opened, indented, if_neg (by simp)]
  simp only [List.take_succ_cons, List.take_zero, Progress.readContent, readMember_row]
  rfl

/-- The rows of members change the entry of the class above them one after the other. -/
theorem Progress.run_members {progress : Progress} {table : Table} {owner : ClassName}
    {change : ClassEntry → ClassEntry} {start : Nat} {more : List OpenLine}
    (opened : progress.opened = ⟨start, some owner⟩ :: more)
    (now : progress.table = table.update owner change)
    (members : List MemberRow) (number : Nat) (later : List (Option Line)) :
    ∃ opened, progress.run (numbered number (members.map MemberRow.row) ++ later)
      = Progress.run
          ⟨table.update owner fun entry =>
            members.foldl (fun entry member => member.add entry) (change entry), opened⟩ later := by
  induction members generalizing progress change more number with
  | nil =>
      simp only [List.foldl_nil]
      rw [← now]
      exact ⟨progress.opened, rfl⟩
  | cons member members ih =>
      have step := progress.step_member opened member number
      rw [now, Table.update_update] at step
      rw [List.map_cons, numbered, List.cons_append, Progress.run, step]
      exact ih rfl rfl (number + 1)

/-- A class row and the rows of members below it. -/
structure RowBlock where
  name : ClassName
  /-- The text of the deobfuscated name. -/
  text : String
  members : List MemberRow

namespace RowBlock

/-- The rows of the block. -/
def rows (block : RowBlock) : List Row :=
  classRow block.name block.text :: block.members.map MemberRow.row

/-- What the block does to the entry of its class. -/
def fill (block : RowBlock) (entry : ClassEntry) : ClassEntry :=
  block.members.foldl (fun entry member => member.add entry) (nameClass block.name block.text entry)

/-- What the block does to a table. -/
def apply (table : Table) (block : RowBlock) : Table :=
  table.update block.name block.fill

/-- The class row of the block is accepted. -/
def Accepted (block : RowBlock) : Prop :=
  Accepts block.name block.text

end RowBlock

private theorem MemberRow.soundAt_add {keys : List String} {entry : ClassEntry}
    (sound : ClassEntry.SoundAt keys entry) (member : MemberRow) :
    ClassEntry.SoundAt keys (member.add entry) := by
  cases member with
  | field name type mapped =>
      cases mapped with
      | none => exact sound.touchField _
      | some mapped => exact sound.mapField _ _
  | method signature mapped =>
      cases mapped with
      | none => exact sound.touchMethod _
      | some mapped => exact sound.mapMethod _ _

private theorem RowBlock.soundAt_fill {block : RowBlock} (accepted : block.Accepted) {entry : ClassEntry}
    (sound : ClassEntry.SoundAt block.name.path entry) :
    ClassEntry.SoundAt block.name.path (block.fill entry) := by
  have named : entry.name = block.name := ClassName.path_injective sound.path
  have start : ClassEntry.SoundAt block.name.path (nameClass block.name block.text entry) := by
    rcases accepted with empty | ⟨seen, seenText, plain⟩
    · rwa [empty, nameClass_empty]
    · have renamed := sound.rename (rename_mappedPart.2 ⟨named ▸ plain, rfl⟩)
      rw [congrArg (storedPart · seen) named] at renamed
      rw [← seenText, nameClass_text]
      exact renamed
  unfold fill
  generalize nameClass block.name block.text entry = entry at start
  induction block.members generalizing entry with
  | nil => exact start
  | cons member members ih => exact ih _ (member.soundAt_add start)

private theorem RowBlock.sound_apply {table : Table} (sound : table.Sound) {block : RowBlock}
    (accepted : block.Accepted) : (block.apply table).Sound :=
  sound.update fun _ entrySound => RowBlock.soundAt_fill accepted entrySound

/-- The rows of an accepted block are read, and change the entry of its class. -/
theorem run_block {progress : Progress} (sound : progress.table.Sound) {block : RowBlock}
    (accepted : block.Accepted) (number : Nat) (later : List (Option Line)) :
    ∃ opened, progress.run (numbered number block.rows ++ later)
      = Progress.run ⟨block.apply progress.table, opened⟩ later := by
  have read : readClass progress.table ((classRow block.name block.text).line number) = .ok _ :=
    (readClass_row sound).2 ⟨accepted, rfl⟩
  have step := progress.step_class block.name block.text number
  rw [read] at step
  rw [RowBlock.rows, numbered, List.cons_append, Progress.run, step]
  exact Progress.run_members rfl rfl block.members (number + 1) later

/-- Accepted blocks are read one after the other. -/
theorem run_blocks_of_accepted {progress : Progress} (sound : progress.table.Sound)
    {blocks : List RowBlock} (accepted : ∀ block ∈ blocks, block.Accepted) (number : Nat) :
    ∃ opened, progress.run (numbered number (blocks.flatMap RowBlock.rows))
      = .ok ⟨blocks.foldl RowBlock.apply progress.table, opened⟩ := by
  induction blocks generalizing progress number with
  | nil => exact ⟨progress.opened, rfl⟩
  | cons block blocks ih =>
      obtain ⟨first, others⟩ := List.forall_mem_cons.1 accepted
      rw [List.flatMap_cons, numbered_append]
      obtain ⟨opened, run⟩ := run_block sound first number (numbered _ (blocks.flatMap RowBlock.rows))
      rw [run]
      exact ih (RowBlock.sound_apply sound first) others _

/-- Blocks that are read one after the other are accepted. -/
theorem accepted_of_run_blocks {progress after : Progress} (sound : progress.table.Sound)
    {blocks : List RowBlock} {number : Nat}
    (success : progress.run (numbered number (blocks.flatMap RowBlock.rows)) = .ok after) :
    ∀ block ∈ blocks, block.Accepted := by
  induction blocks generalizing progress number with
  | nil => simp
  | cons block blocks ih =>
      rw [List.flatMap_cons, numbered_append] at success
      have first : block.Accepted := by
        rw [RowBlock.rows, numbered, List.cons_append, Progress.run, Progress.step_class] at success
        cases read : readClass progress.table ((classRow block.name block.text).line number) with
        | error failure => simp [read, Progress.refuse] at success
        | ok result => exact ((readClass_row sound).1 read).1
      obtain ⟨opened, run⟩ := run_block sound first number (numbered _ (blocks.flatMap RowBlock.rows))
      rw [run] at success
      exact List.forall_mem_cons.2 ⟨first, ih (RowBlock.sound_apply sound first) success⟩

end MixinLink.Tiny
