import MixinLink.Proofs.BlockReading
import MixinLink.Proofs.Listing
import MixinLink.Proofs.Separators

/-!
# Reading what was written

A written text is read block by block. A table that was read can always be written, but the text is
refused again where a class accepts no such name: mostly a nested class whose own part of the mapped name
has a `$`, as it has by itself or gets from the end of the name around it.

Main exports: `Tiny.Block.seen`, `Tiny.readText_written`, `Tiny.Rereadable`,
`Tiny.readText_write_iff`.
-/

namespace MixinLink.Tiny

/-! ## Names at the end of a line -/

/-- A field name at the end of a line as it is read. -/
def seenField (name : FieldName) : Option FieldName :=
  (FieldName.parse (withoutReturn name.text)).toOption

/-- A method name at the end of a line as it is read. -/
def seenMethod (name : MethodName) : Option MethodName :=
  (MethodName.parse (withoutReturn name.text)).toOption

/-- A field name at the end of a line is read without a carriage return. -/
theorem text_seenField (name : FieldName) :
    ((seenField name).map FieldName.text).getD "" = withoutReturn name.text := by
  unfold seenField
  by_cases empty : withoutReturn name.text = ""
  · have invalid : FieldName.parse "" = .error ⟨[.onValue ""], .invalidFieldName⟩ := dif_neg (by decide)
    rw [empty, invalid]
    rfl
  · have valid : isSimpleText (withoutReturn name.text).toList = true := by
      have simple := name.valid
      rw [isSimpleText_iff] at simple ⊢
      refine ⟨?_, fun c member => simple.2 c (mem_of_mem_withoutReturn member)⟩
      exact fun none => empty (String.toList_eq_nil_iff.1 none)
    have parsed : FieldName.parse (withoutReturn name.text) = .ok ⟨_, valid⟩ := FieldName.parse_eq_ok.2 rfl
    rw [parsed]
    rfl

/-- A method name at the end of a line is read without a carriage return. -/
theorem text_seenMethod (name : MethodName) :
    ((seenMethod name).map MethodName.text).getD "" = withoutReturn name.text := by
  unfold seenMethod
  by_cases empty : withoutReturn name.text = ""
  · have invalid : MethodName.parse "" = .error ⟨[.onValue ""], .invalidMethodName⟩ := dif_neg (by decide)
    rw [empty, invalid]
    rfl
  · have valid : isMethodText (withoutReturn name.text).toList = true := by
      have ownValid := name.valid
      simp only [isMethodText, Bool.or_eq_true, decide_eq_true_eq] at ownValid
      rcases ownValid with special | ordinary
      · -- neither of the two special names ends with a carriage return
        have kept : withoutReturn name.text = name.text := by
          refine withoutReturn_of_not_mem ?_
          rcases special with init | setUp
          · rw [init]
            decide
          · rw [setUp]
            decide
        rw [kept]
        exact name.valid
      · simp only [isMethodText, Bool.or_eq_true, Bool.and_eq_true, Bool.not_eq_true',
          List.isEmpty_eq_false_iff, List.all_eq_true] at ordinary ⊢
        refine .inr ⟨?_, fun c member => ordinary.2 c (mem_of_mem_withoutReturn member)⟩
        exact fun none => empty (String.toList_eq_nil_iff.1 none)
    have parsed : MethodName.parse (withoutReturn name.text) = .ok ⟨_, valid⟩ := MethodName.parse_eq_ok.2 rfl
    rw [parsed]
    rfl

/-! ## The rows of a text -/

/-- The header as a row. -/
def headerRow (namespaces : Namespaces) : Row :=
  ⟨0, "tiny", ["2", "0", namespaces.obfuscated, namespaces.deobfuscated]⟩

/-- The row of a field. -/
def fieldRow (field : FieldMapping) : Row :=
  ⟨1, "f", [(field.signature.type.map FieldType.descriptor).getD "", field.signature.name.text,
    field.mapped.text]⟩

/-- The row of a method. -/
def methodRow (method : MethodMapping) : Row :=
  ⟨1, "m", [method.signature.type.descriptor, method.signature.name.text, method.mapped.text]⟩

/-- The header is written as a row. -/
theorem headerLine_eq (namespaces : Namespaces) : headerLine namespaces = (headerRow namespaces).text := by
  apply String.toList_injective
  simp [headerLine, headerRow, Row.text, Row.chars, Row.body]

/-- A field is written as a row. -/
theorem fieldLine_eq (field : FieldMapping) : fieldLine field = (fieldRow field).text := by
  apply String.toList_injective
  simp [fieldLine, fieldRow, Row.text, Row.chars, Row.body]

/-- A method is written as a row. -/
theorem methodLine_eq (method : MethodMapping) : methodLine method = (methodRow method).text := by
  apply String.toList_injective
  simp [methodLine, methodRow, Row.text, Row.chars, Row.body]

/-- The row of a field as it is read, if its type is known. -/
def fieldMember? (field : FieldMapping) : Option MemberRow :=
  field.signature.type.map (.field field.signature.name · (seenField field.mapped))

/-- The row of a method as it is read. -/
def methodMember (method : MethodMapping) : MemberRow :=
  .method method.signature (seenMethod method.mapped)

/-- The row of a method is read as a method. -/
theorem seen_methodRow (method : MethodMapping) : (methodRow method).seen = (methodMember method).row := by
  simp [methodRow, Row.seen, methodMember, MemberRow.row, text_seenMethod]

/-- The rows of fields with known types are read as fields. -/
theorem seen_fieldRows {fields : List FieldMapping}
    (typed : ∀ field ∈ fields, field.signature.type.isSome = true) :
    fields.map (fun field => (fieldRow field).seen) = (fields.filterMap fieldMember?).map MemberRow.row := by
  induction fields with
  | nil => rfl
  | cons field fields ih =>
      obtain ⟨known, others⟩ := List.forall_mem_cons.1 typed
      obtain ⟨type, isType⟩ := Option.isSome_iff_exists.1 known
      have here : fieldMember? field = some (.field field.signature.name type (seenField field.mapped)) := by
        rw [fieldMember?, isType, Option.map_some]
      rw [List.map_cons, ih others, List.filterMap_cons_some here, List.map_cons]
      simp [fieldRow, Row.seen, MemberRow.row, isType, text_seenField]

namespace Block

/-- The rows of a block. -/
def rows (block : Block) : List Row :=
  classRow block.name block.mapped.text :: (block.fields.map fieldRow ++ block.methods.map methodRow)

/-- A block is written as its rows. -/
theorem lines_eq (block : Block) : block.lines = block.rows.map Row.text := by
  have first : "c\t" ++ block.name.text ++ "\t" ++ block.mapped.text ++ "\n"
      = (classRow block.name block.mapped.text).text := by
    apply String.toList_injective
    simp [classRow, Row.text, Row.chars, Row.body]
  have fields : block.fields.map fieldLine = block.fields.map (Row.text ∘ fieldRow) :=
    List.map_congr_left fun field _ => fieldLine_eq field
  have methods : block.methods.map methodLine = block.methods.map (Row.text ∘ methodRow) :=
    List.map_congr_left fun method _ => methodLine_eq method
  simp only [lines, rows, List.map_cons, List.map_append, List.map_map, first, fields, methods]

/-- The block as it is read. -/
def seen (block : Block) : RowBlock where
  name := block.name
  text := withoutReturn block.mapped.text
  members := block.fields.filterMap fieldMember? ++ block.methods.map methodMember

/-- The rows of a block are read as a block. -/
theorem rows_seen {block : Block} (typed : ∀ field ∈ block.fields, field.signature.type.isSome = true) :
    block.rows.map Row.seen = block.seen.rows := by
  have methods : block.methods.map (fun method => (methodRow method).seen)
      = (block.methods.map methodMember).map MemberRow.row := by
    rw [List.map_map]
    exact List.map_congr_left fun method _ => seen_methodRow method
  have members : (block.fields.map fieldRow ++ block.methods.map methodRow).map Row.seen
      = block.seen.members.map MemberRow.row := by
    rw [List.map_append, List.map_map, List.map_map, seen, List.map_append, ← seen_fieldRows typed,
      ← methods]
    rfl
  rw [rows, List.map_cons, members]
  rfl

end Block

section Told

variable {table : Table} {block : Block} (tells : Tells table block)

include tells

/-- Only fields with known types are written. -/
theorem typed_of_tells : ∀ field ∈ block.fields, field.signature.type.isSome = true := by
  obtain ⟨entry, _, fields, _⟩ := tells.members
  intro field member
  rw [fields, writtenFields, List.mem_mergeSort, List.mem_filter, Bool.and_eq_true] at member
  exact member.2.2

/-- The texts of a block lack what the names and descriptors of the table lack. -/
theorem lacks_of_tells {mark : Char} (sound : table.Sound) (lacks : table.Lacks mark)
    (notDollar : mark ≠ '$') : ∀ row ∈ block.rows, ∀ field ∈ row.rest, mark ∉ field.toList := by
  obtain ⟨entry, found, fields, methods⟩ := tells.members
  have keyed := (sound.soundAt found).members
  have entryLacks := lacks.entry found
  have nameLacks : mark ∉ block.name.text.toList := sound.name_of_find? found ▸ entryLacks.name
  have mappedLacks := lacks.mapClass notDollar nameLacks tells.mapped
  intro row member
  simp only [Block.rows, List.mem_cons, List.mem_append, List.mem_map] at member
  rcases member with rfl | ⟨field, isField, rfl⟩ | ⟨method, isMethod, rfl⟩
  · simp only [classRow, List.forall_mem_cons]
    exact ⟨nameLacks, mappedLacks, by simp⟩
  · rw [fields, writtenFields, List.mem_mergeSort, List.mem_filter] at isField
    obtain ⟨pair, isPair, rfl⟩ := List.mem_map.1 isField.1
    obtain ⟨signatureLacks, ownLacks⟩ := entryLacks.fields pair isPair
    rw [← keyed.fields pair isPair] at signatureLacks
    obtain ⟨_, ⟨name, type⟩, mapped⟩ := pair
    cases type with
    | none => simp at isField
    | some type =>
        simp only [FieldSignature.text, String.toList_append, List.mem_append, not_or] at signatureLacks
        simp only [fieldRow, List.forall_mem_cons]
        exact ⟨signatureLacks.2, signatureLacks.1.1, ownLacks, by simp⟩
  · rw [methods, writtenMethods, List.mem_mergeSort, List.mem_filter] at isMethod
    obtain ⟨pair, isPair, rfl⟩ := List.mem_map.1 isMethod.1
    obtain ⟨signatureLacks, ownLacks⟩ := entryLacks.methods pair isPair
    rw [← keyed.methods pair isPair] at signatureLacks
    simp only [MethodSignature.text, String.toList_append, List.mem_append, not_or] at signatureLacks
    simp only [methodRow, List.forall_mem_cons]
    exact ⟨signatureLacks.2, signatureLacks.1, ownLacks, by simp⟩

/-- The rows of a table without separators are plain. -/
theorem plain_of_tells (sound : table.Sound) (noTab : table.Lacks '\t') (noNewline : table.Lacks '\n') :
    ∀ row ∈ block.rows, row.Plain := by
  intro row member
  have tabs := lacks_of_tells tells sound noTab (by decide) row member
  have newlines := lacks_of_tells tells sound noNewline (by decide) row member
  have rest := fun field isField => And.intro (tabs field isField) (newlines field isField)
  simp only [Block.rows, List.mem_cons, List.mem_append, List.mem_map] at member
  rcases member with rfl | ⟨field, isField, rfl⟩ | ⟨method, isMethod, rfl⟩
  · exact ⟨by simp [classRow], by simp [classRow], by simp [classRow], rest⟩
  · exact ⟨by simp [fieldRow], by simp [fieldRow], by simp [fieldRow], rest⟩
  · exact ⟨by simp [methodRow], by simp [methodRow], by simp [methodRow], rest⟩

end Told

/-! ## Reading a written text -/

/-- The row of a header is read as the namespaces. -/
theorem readHeader_row (namespaces : Namespaces) (number : Nat) :
    readHeader ((headerRow namespaces).seen.line number)
      = Checked.within (.onLine number)
          (Namespaces.ofPair namespaces.obfuscated (withoutReturn namespaces.deobfuscated)) := rfl

/-- A text with the blocks of a table is read exactly if its header and all blocks are accepted, and what
is read is made up of the blocks. -/
theorem readText_written {table again : Table} (sound : table.Sound) (noTab : table.Lacks '\t')
    (noNewline : table.Lacks '\n') {blocks : List Block} (listing : Listing table blocks) :
    readText (String.join (headerLine table.namespaces :: blocks.flatMap Block.lines)) = .ok again
      ↔ ∃ namespaces : Namespaces, namespaces.obfuscated = table.namespaces.obfuscated
        ∧ namespaces.deobfuscated = withoutReturn table.namespaces.deobfuscated
        ∧ (∀ block ∈ blocks, block.seen.Accepted)
        ∧ again = (blocks.map Block.seen).foldl RowBlock.apply (.empty namespaces) := by
  have told : ∀ block ∈ blocks, Tells table block := fun block member => (listing.mem block).1 member
  have text : headerLine table.namespaces :: blocks.flatMap Block.lines
      = (headerRow table.namespaces :: blocks.flatMap Block.rows).map Row.text := by
    rw [List.map_cons, headerLine_eq, List.map_flatMap]
    exact congrArg _ (List.flatMap_congr fun block _ => block.lines_eq)
  have plain : ∀ row ∈ headerRow table.namespaces :: blocks.flatMap Block.rows, row.Plain := by
    refine List.forall_mem_cons.2 ⟨?_, fun row member => ?_⟩
    · refine ⟨by simp [headerRow], by simp [headerRow], by simp [headerRow], ?_⟩
      simp only [headerRow, List.forall_mem_cons]
      exact ⟨by decide, by decide, ⟨noTab.obfuscated, noNewline.obfuscated⟩,
        ⟨noTab.deobfuscated, noNewline.deobfuscated⟩, by simp⟩
    · obtain ⟨block, isBlock, isRow⟩ := List.mem_flatMap.1 member
      exact plain_of_tells (told block isBlock) sound noTab noNewline row isRow
  have seen : (blocks.flatMap Block.rows).map Row.seen = (blocks.map Block.seen).flatMap RowBlock.rows := by
    rw [List.map_flatMap, List.flatMap_map]
    exact List.flatMap_congr fun block member => Block.rows_seen (typed_of_tells (told block member))
  have start : ∀ namespaces, (Progress.mk (.empty namespaces) []).table.Sound := .empty
  rw [text, readText_rows plain, List.map_cons, seen, numbered, read_eq_onePass, onePass,
    Checked.bind_eq_ok]
  constructor
  · rintro ⟨namespaces, header, success⟩
    rw [readHeader_row, Checked.within_eq_ok, ofPair_eq_ok] at header
    obtain ⟨progress, run, success⟩ := Checked.bind_eq_ok.1 success
    have accepted := accepted_of_run_blocks (start namespaces) run
    obtain ⟨opened, result⟩ := run_blocks_of_accepted (start namespaces) accepted 2
    cases run.symm.trans result
    refine ⟨namespaces, header.1, header.2, ?_, (Checked.pure_eq_ok.1 success).symm⟩
    exact fun block member => accepted _ (List.mem_map_of_mem member)
  · rintro ⟨namespaces, obfuscated, deobfuscated, accepted, rfl⟩
    have header : readHeader ((headerRow table.namespaces).seen.line 1) = .ok namespaces := by
      rw [readHeader_row, Checked.within_eq_ok, ofPair_eq_ok]
      exact ⟨obfuscated, deobfuscated⟩
    obtain ⟨opened, result⟩ :=
      run_blocks_of_accepted (start namespaces) (List.forall_mem_map.2 accepted) 2
    exact ⟨namespaces, header, Checked.bind_eq_ok.2 ⟨_, result, rfl⟩⟩

/-! ## Tables whose text can be read -/

/-- What is written about the table can be read again: the namespaces stay different, and every class
accepts its mapped name. At the end of a line a name loses a carriage return. -/
structure Rereadable (table : Table) : Prop where
  named : withoutReturn table.namespaces.deobfuscated ≠ ""
  distinct : withoutReturn table.namespaces.deobfuscated ≠ table.namespaces.obfuscated
  accepted : ∀ block, Tells table block → Accepts block.name (withoutReturn block.mapped.text)

/-- A table without separators is written to a text that is read again exactly if all of it is
accepted. -/
theorem exists_written {table : Table} (sound : table.Sound) (noTab : table.Lacks '\t')
    (noNewline : table.Lacks '\n') :
    ∃ written, write table = .ok written
      ∧ ((∃ again, readText written = .ok again) ↔ Rereadable table) := by
  obtain ⟨blocks, listing, writes⟩ := exists_listing sound
  refine ⟨_, writes, ?_⟩
  constructor
  · rintro ⟨again, reads⟩
    obtain ⟨namespaces, obfuscated, deobfuscated, accepted, _⟩ :=
      (readText_written sound noTab noNewline listing).1 reads
    refine ⟨?_, ?_, fun block tells => accepted block ((listing.mem block).2 tells)⟩
    · rw [← deobfuscated]
      exact namespaces.deobfuscated_ne
    · rw [← deobfuscated, ← obfuscated]
      exact namespaces.distinct.symm
  · intro rereadable
    let namespaces : Namespaces :=
      ⟨table.namespaces.obfuscated, withoutReturn table.namespaces.deobfuscated,
        table.namespaces.obfuscated_ne, rereadable.named, rereadable.distinct.symm⟩
    refine ⟨_, (readText_written sound noTab noNewline listing).2
      ⟨namespaces, rfl, rfl, fun block member => ?_, rfl⟩⟩
    exact rereadable.accepted block ((listing.mem block).1 member)

/-- Whatever is read can be written. The text is read again exactly if its namespaces stay different and
every class accepts the name that is written for it. -/
theorem readText_write_iff {text : String} {table : Table} (success : readText text = .ok table) :
    ∃ written, write table = .ok written
      ∧ ((∃ again, readText written = .ok again) ↔ Rereadable table) := by
  obtain ⟨noTab, noNewline⟩ := lacks_of_readText success
  exact exists_written (sound_of_read success) noTab noNewline

/-! ## Nested classes with and without `$` in their own part -/

def plainNested : ClassName :=
  ⟨"s/k$n", by decide +kernel⟩

/-- A nested class that has a mapped name of its own is read, written and judged. -/
theorem readText_write_plainNested :
    ∃ table, readText "tiny\t2\t0\tofficial\tnamed\nc\ts/k$n\tq/Outer$Inner\n" = .ok table
      ∧ (table.find? plainNested).map ClassEntry.mapped = some "Inner"
      ∧ ∃ written, write table = .ok written
        ∧ ((∃ again, readText written = .ok again) ↔ Rereadable table) := by
  let table := (Table.empty .standard).update plainNested fun entry => { entry with mapped := "Inner" }
  have success : readText "tiny\t2\t0\tofficial\tnamed\nc\ts/k$n\tq/Outer$Inner\n" = .ok table := by
    decide +kernel
  exact ⟨table, success, by decide +kernel, readText_write_iff success⟩

def doubledNested : ClassName :=
  ⟨"a$b$$c", by decide +kernel⟩

def doubledField : FieldMapping :=
  ⟨⟨⟨"u", by decide +kernel⟩, some (.ofClass doubledNested)⟩, ⟨"v", by decide +kernel⟩⟩

def doubledTable : Table :=
  (Table.empty .standard).update doubledNested (·.mapField doubledField.signature doubledField.mapped)

/-- A nested class may be called `b$$c` as long as that is not written out as a mapped name. -/
theorem unreadable_doubledNested :
    ∃ table written,
      readText "tiny\t2\t0\tofficial\tnamed\nc\ta$b$$c\n\tf\tLa$b$$c;\tu\tv\n" = .ok table
      ∧ write table = .ok written ∧ ∀ again, readText written ≠ .ok again := by
  have success : readText "tiny\t2\t0\tofficial\tnamed\nc\ta$b$$c\n\tf\tLa$b$$c;\tu\tv\n"
      = .ok doubledTable := by
    decide +kernel
  obtain ⟨noTab, noNewline⟩ := lacks_of_readText success
  obtain ⟨written, writes, rereads⟩ := exists_written (sound_of_read success) noTab noNewline
  refine ⟨doubledTable, written, success, writes, fun again reads => ?_⟩
  let entry : ClassEntry := (ClassEntry.fresh doubledNested "b$$c").mapField doubledField.signature
    doubledField.mapped
  let block : Block := ⟨doubledNested, doubledNested, [doubledField], []⟩
  have tells : Tells doubledTable block := by
    refine ⟨by decide +kernel, ⟨entry, by decide +kernel, ?_, ?_⟩, fun silent => ?_⟩
    · decide +kernel
    · decide +kernel
    · exact absurd silent.2.1 (List.cons_ne_nil _ _)
  rcases (rereads.1 ⟨again, reads⟩).accepted block tells with empty | ⟨seen, same, plain⟩
  · exact absurd empty (by decide +kernel)
  · have isName : seen = doubledNested := ClassName.ext_text (same.trans (by decide +kernel))
    rw [isName] at plain
    exact absurd (plain (by decide +kernel)) (by decide +kernel)

end MixinLink.Tiny
