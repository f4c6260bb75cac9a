import MixinLink.Proofs.BlockReading
import MixinLink.Proofs.ClassMapping
import MixinLink.Proofs.Descriptors

/-!
# Separators of mapping text

Tabs and line feeds separate fields and lines, so nothing that is read from a text has them. A character
that the names and descriptors of a table lack is in no mapped class name either.

Main exports: `Table.Lacks`, `Table.Lacks.update`, `Table.Lacks.mapClass`, `Tiny.lacks_of_readText`.
-/

namespace MixinLink

/-- No name and no descriptor of the entry has this character. -/
structure ClassEntry.Lacks (mark : Char) (entry : ClassEntry) : Prop where
  name : mark ∉ entry.name.text.toList
  mapped : mark ∉ entry.mapped.toList
  fields : Assoc.All (fun signature mapping =>
    mark ∉ signature.text.toList ∧ mark ∉ mapping.mapped.text.toList) entry.fields
  methods : Assoc.All (fun signature mapping =>
    mark ∉ signature.text.toList ∧ mark ∉ mapping.mapped.text.toList) entry.methods

/-- No namespace, name or descriptor of the table has this character. -/
structure Table.Lacks (mark : Char) (table : Table) : Prop where
  obfuscated : mark ∉ table.namespaces.obfuscated.toList
  deobfuscated : mark ∉ table.namespaces.deobfuscated.toList
  entries : table.classes.All (fun _ entry => entry.Lacks mark) []

instance (mark : Char) (entry : ClassEntry) : Decidable (entry.Lacks mark) :=
  decidable_of_iff
    (mark ∉ entry.name.text.toList ∧ mark ∉ entry.mapped.toList
      ∧ (∀ field ∈ entry.fields, mark ∉ field.1.text.toList ∧ mark ∉ field.2.mapped.text.toList)
      ∧ ∀ method ∈ entry.methods, mark ∉ method.1.text.toList ∧ mark ∉ method.2.mapped.text.toList)
    ⟨fun parts => ⟨parts.1, parts.2.1, parts.2.2.1, parts.2.2.2⟩,
      fun lacks => ⟨lacks.name, lacks.mapped, lacks.fields, lacks.methods⟩⟩

instance (mark : Char) (table : Table) : Decidable (table.Lacks mark) :=
  decidable_of_iff
    (mark ∉ table.namespaces.obfuscated.toList ∧ mark ∉ table.namespaces.deobfuscated.toList
      ∧ table.classes.All (fun _ entry => entry.Lacks mark) [])
    ⟨fun parts => ⟨parts.1, parts.2.1, parts.2.2⟩,
      fun lacks => ⟨lacks.obfuscated, lacks.deobfuscated, lacks.entries⟩⟩

/-! ## Characters of class names -/

namespace ClassName

private theorem mem_text_of_mem_key {name : ClassName} {key : String} (isKey : key ∈ name.path) {c : Char}
    (notDollar : c ≠ '$') (member : c ∈ key.toList) : c ∈ name.text.toList := by
  rw [text_eq_intercalate_path, mem_intercalate_dollar notDollar]
  exact ⟨key, isKey, member⟩

/-- The classes around a class have no characters that the class does not have. -/
theorem mem_text_of_trail {whole name : ClassName} {key : String} {before after : List (String × ClassName)}
    (split : whole.trail = before ++ (key, name) :: after) {c : Char} (notDollar : c ≠ '$')
    (member : c ∈ name.text.toList) : c ∈ whole.text.toList := by
  rw [text_eq_intercalate_path, mem_intercalate_dollar notDollar] at member
  obtain ⟨part, isPart, inside⟩ := member
  refine mem_text_of_mem_key ?_ notDollar inside
  rw [path_of_trail split] at isPart
  rw [← keys_trail, split]
  simp only [List.mem_append, List.mem_singleton] at isPart
  simp only [List.map_append, List.map_cons, List.mem_append, List.mem_cons]
  exact isPart.imp_right .inl

private theorem key_mem_path (name : ClassName) : name.key ∈ name.path :=
  List.mem_of_getLast? name.getLast?_path

private theorem mem_text_of_mem_lastPart {name : ClassName} {c : Char} (member : c ∈ name.lastPart.toList) :
    c ∈ name.text.toList := by
  rw [← splitPackage_append name.text.toList, List.mem_append]
  refine .inr ?_
  unfold lastPart at member
  split at member
  · rename_i simple isLast
    have isPiece : simple.text.toList ∈ (cutNested false (splitPackage name.text.toList).2).2 := by
      rw [← toList_nesting_inner]
      exact List.mem_map_of_mem (List.mem_of_getLast? isLast)
    exact mem_of_mem_cutNested (.inr ⟨_, isPiece, member⟩)
  · rwa [unpackaged, String.toList_ofList] at member

end ClassName

/-- What holds of the keys and of all mapped names holds of the mapped names along a path. -/
theorem ClassForest.forall_mappedPath {property : String → Prop} {forest : ClassForest}
    {outer keys : List String}
    (entries : forest.All (fun _ entry => property entry.mapped) outer) (own : ∀ key ∈ keys, property key) :
    ∀ text ∈ forest.mappedPath keys, property text := by
  induction forest generalizing outer keys with
  | nil => exact own
  | cons key entry inner rest innerIh restIh =>
      obtain ⟨here, inside, later⟩ := entries
      cases keys with
      | nil => exact own
      | cons k ks =>
          obtain ⟨_, others⟩ := List.forall_mem_cons.1 own
          by_cases same : key = k
          · simp only [mappedPath, same, if_true]
            exact List.forall_mem_cons.2 ⟨here, innerIh inside others⟩
          · simp only [mappedPath, same, if_false]
            exact restIh later own

/-! ## Changes of tables -/

namespace ClassEntry.Lacks

variable {mark : Char} {entry : ClassEntry}

/-- A new entry lacks the mark if its name and its key do. -/
theorem fresh {name : ClassName} {key : String} (nameLacks : mark ∉ name.text.toList)
    (keyLacks : mark ∉ key.toList) : Lacks mark (.fresh name key) :=
  ⟨nameLacks, keyLacks, Assoc.all_nil, Assoc.all_nil⟩

/-- Mapping a field adds its signature and its mapped name. -/
theorem mapField (lacks : Lacks mark entry) {signature : FieldSignature} {mapped : FieldName}
    (signatureLacks : mark ∉ signature.text.toList) (mappedLacks : mark ∉ mapped.text.toList) :
    Lacks mark (entry.mapField signature mapped) :=
  { lacks with
    fields := lacks.fields.upsert ⟨signatureLacks, mappedLacks⟩ fun _ _ => ⟨signatureLacks, mappedLacks⟩ }

/-- Mapping a method adds its signature and its mapped name. -/
theorem mapMethod (lacks : Lacks mark entry) {signature : MethodSignature} {mapped : MethodName}
    (signatureLacks : mark ∉ signature.text.toList) (mappedLacks : mark ∉ mapped.text.toList) :
    Lacks mark (entry.mapMethod signature mapped) :=
  { lacks with
    methods := lacks.methods.upsert ⟨signatureLacks, mappedLacks⟩ fun _ _ => ⟨signatureLacks, mappedLacks⟩ }

/-- A field without a mapped name adds its signature and its name. -/
theorem touchField (lacks : Lacks mark entry) {signature : FieldSignature}
    (signatureLacks : mark ∉ signature.text.toList) (nameLacks : mark ∉ signature.name.text.toList) :
    Lacks mark (entry.touchField signature) :=
  { lacks with fields := lacks.fields.upsert ⟨signatureLacks, nameLacks⟩ fun _ old => old }

/-- A method without a mapped name adds its signature and its name. -/
theorem touchMethod (lacks : Lacks mark entry) {signature : MethodSignature}
    (signatureLacks : mark ∉ signature.text.toList) (nameLacks : mark ∉ signature.name.text.toList) :
    Lacks mark (entry.touchMethod signature) :=
  { lacks with methods := lacks.methods.upsert ⟨signatureLacks, nameLacks⟩ fun _ old => old }

end ClassEntry.Lacks

namespace Table.Lacks

variable {mark : Char} {table : Table}

/-- An empty table has its namespaces only. -/
theorem empty {namespaces : Namespaces} (obfuscated : mark ∉ namespaces.obfuscated.toList)
    (deobfuscated : mark ∉ namespaces.deobfuscated.toList) : Lacks mark (.empty namespaces) :=
  ⟨obfuscated, deobfuscated, trivial⟩

/-- A change of one entry adds no mark if it adds none to any entry. -/
theorem update (lacks : table.Lacks mark) (notDollar : mark ≠ '$') {name : ClassName}
    (nameLacks : mark ∉ name.text.toList) {change : ClassEntry → ClassEntry}
    (kept : ∀ entry, entry.Lacks mark → (change entry).Lacks mark) :
    (table.update name change).Lacks mark := by
  refine ⟨lacks.obfuscated, lacks.deobfuscated, lacks.entries.update ?_ fun entry => kept entry⟩
  intro before key other after split
  have otherLacks : mark ∉ other.text.toList :=
    fun member => nameLacks (ClassName.mem_text_of_trail split notDollar member)
  refine .fresh otherLacks fun member => otherLacks ?_
  rw [ClassName.key_of_trail split] at member
  exact ClassName.mem_text_of_mem_key other.key_mem_path notDollar member

/-- The entry of a class in such a table. -/
theorem entry (lacks : table.Lacks mark) {name : ClassName} {entry : ClassEntry}
    (found : table.find? name = some entry) : entry.Lacks mark :=
  lacks.entries.entryAt? found

/-- Mapping classes adds no mark other than the dollar. -/
theorem mapClass (lacks : table.Lacks mark) (notDollar : mark ≠ '$') {name mapped : ClassName}
    (nameLacks : mark ∉ name.text.toList) (maps : table.mapClass name = .ok mapped) :
    mark ∉ mapped.text.toList := by
  rw [mapClass_eq_ok.1 maps, mappedText, mem_intercalate_dollar notDollar]
  rintro ⟨text, onPath, member⟩
  have entries : table.classes.All (fun _ entry => mark ∉ entry.mapped.toList) [] :=
    ClassForest.all_iff_stored.2 fun keys entry below isStored =>
      (ClassForest.all_iff_stored.1 lacks.entries keys entry below isStored).mapped
  have keys : ∀ key ∈ name.path, mark ∉ key.toList :=
    fun key isKey inside => nameLacks (ClassName.mem_text_of_mem_key isKey notDollar inside)
  exact ClassForest.forall_mappedPath entries keys text onPath member

end Table.Lacks

namespace Tiny

/-! ## Fields of a line -/

/-- Both names at the end of a line are written in its fields. -/
theorem NameFields.mem_fields {α : Type} {text : α → String} {fields : List String} {name : α}
    {mapped : Option α} (written : NameFields text fields name mapped) :
    text name ∈ fields ∧ ((mapped.map text).getD "" = "" ∨ (mapped.map text).getD "" ∈ fields) := by
  cases written with
  | single => simp
  | empty => simp
  | named => simp

private theorem Line.TellsMember.mem_fields {line : Line} {member : MemberRow}
    (told : line.TellsMember member) :
    ∀ field ∈ member.row.rest, field = "" ∨ field ∈ line.rest := by
  cases told with
  | field _ fields written =>
      obtain ⟨own, other⟩ := written.mem_fields
      rw [fields]
      simp only [MemberRow.row, List.forall_mem_cons]
      exact ⟨.inr List.mem_cons_self, .inr (List.mem_cons_of_mem _ own),
        other.imp_right (List.mem_cons_of_mem _), by simp⟩
  | method _ fields written =>
      obtain ⟨own, other⟩ := written.mem_fields
      rw [fields]
      simp only [MemberRow.row, List.forall_mem_cons]
      exact ⟨.inr List.mem_cons_self, .inr (List.mem_cons_of_mem _ own),
        other.imp_right (List.mem_cons_of_mem _), by simp⟩

private theorem MemberRow.lacks_add {mark : Char} (notColon : mark ≠ ':') {entry : ClassEntry}
    (member : MemberRow)
    (lacks : entry.Lacks mark) (fields : ∀ field ∈ member.row.rest, mark ∉ field.toList) :
    (member.add entry).Lacks mark := by
  cases member with
  | field name type mapped =>
      simp only [row, List.forall_mem_cons] at fields
      have signature : mark ∉ (FieldSignature.mk name (some type)).text.toList := by
        simp [FieldSignature.text, fields.1, fields.2.1, notColon]
      cases mapped with
      | none => exact lacks.touchField signature fields.2.1
      | some mapped => exact lacks.mapField signature fields.2.2.1
  | method method mapped =>
      simp only [row, List.forall_mem_cons] at fields
      have signature : mark ∉ method.text.toList := by
        simp [MethodSignature.text, fields.1, fields.2.1]
      cases mapped with
      | none => exact lacks.touchMethod signature fields.2.1
      | some mapped => exact lacks.mapMethod signature fields.2.2.1

/-! ## Reading lines without a character -/

section Lacking

variable {mark : Char} {line : Line} (notDollar : mark ≠ '$')
  (lacking : ∀ field ∈ line.rest, mark ∉ field.toList)

include lacking

private theorem lacks_of_readHeader {namespaces : Namespaces} (success : readHeader line = .ok namespaces) :
    mark ∉ namespaces.obfuscated.toList ∧ mark ∉ namespaces.deobfuscated.toList := by
  obtain ⟨_, fields⟩ := readHeader_eq_ok.1 success
  rw [fields] at lacking
  exact ⟨lacking _ (by simp), lacking _ (by simp)⟩

include notDollar

private theorem lacks_of_readClass {table after : Table} {name : ClassName} (lacks : table.Lacks mark)
    (success : readClass table line = .ok (name, after)) :
    after.Lacks mark ∧ mark ∉ name.text.toList := by
  unfold readClass at success
  obtain ⟨⟨read, deobfuscated⟩, names, success⟩ := Checked.bind_eq_ok.1 success
  have written := (names_eq_ok ClassName.parse_eq_ok ClassName.text_ne_empty).1 names
  obtain ⟨isField, isOther⟩ := written.mem_fields
  have nameLacks : mark ∉ read.text.toList := lacking _ isField
  cases deobfuscated with
  | none =>
      cases Checked.pure_eq_ok.1 success
      exact ⟨lacks.update notDollar nameLacks fun _ entryLacks => entryLacks, nameLacks⟩
  | some seen =>
      obtain ⟨renamed, checked, success⟩ := Checked.bind_eq_ok.1 success
      have seenLacks : mark ∉ seen.text.toList := lacking _ (isOther.resolve_left seen.text_ne_empty)
      have mappedLacks : mark ∉ renamed.mapped.toList := by
        rw [(rename_mappedPart.1 checked).2]
        unfold storedPart
        split
        · exact fun member => seenLacks (ClassName.mem_text_of_mem_lastPart member)
        · exact seenLacks
      cases Checked.pure_eq_ok.1 success
      refine ⟨lacks.update notDollar nameLacks fun _ entryLacks => ?_, nameLacks⟩
      exact ⟨entryLacks.name, mappedLacks, entryLacks.fields, entryLacks.methods⟩

private theorem lacks_of_readMember (notColon : mark ≠ ':') {table after : Table} {owner : ClassName}
    (lacks : table.Lacks mark) (ownerLacks : mark ∉ owner.text.toList)
    (success : readMember table owner line = .ok after) : after.Lacks mark := by
  rcases readMember_eq_ok.1 success with ⟨_, _, rfl⟩ | ⟨member, told, rfl⟩
  · exact lacks
  · refine lacks.update notDollar ownerLacks fun entry entryLacks => ?_
    refine member.lacks_add notColon entryLacks fun field isField => ?_
    rcases told.mem_fields field isField with rfl | written
    · simp
    · exact lacking field written

end Lacking

/-! ## Lines of a text -/

private theorem mem_of_mem_segments {sep c : Char} {text piece : List Char}
    (isPiece : piece ∈ Text.segments sep text) (member : c ∈ piece) : c ∈ text ∧ c ≠ sep := by
  induction text generalizing piece with
  | nil =>
      rw [List.mem_singleton.1 isPiece] at member
      simp at member
  | cons first rest ih =>
      have later : ∀ {piece}, piece ∈ Text.segments sep rest → c ∈ piece → c ∈ first :: rest ∧ c ≠ sep :=
        fun isPiece member => ⟨List.mem_cons_of_mem _ (ih isPiece member).1, (ih isPiece member).2⟩
      by_cases same : first = sep
      · simp only [Text.segments, same, if_true, List.mem_cons] at isPiece
        rcases isPiece with rfl | inRest
        · simp at member
        · exact same ▸ later inRest member
      · simp only [Text.segments, same, if_false] at isPiece
        cases pieces : Text.segments sep rest with
        | nil => exact absurd pieces (Text.segments_ne_nil sep rest)
        | cons second others =>
            simp only [pieces, List.mem_cons] at isPiece
            rcases isPiece with rfl | inRest
            · rcases List.mem_cons.1 member with rfl | inSecond
              · exact ⟨List.mem_cons_self, same⟩
              · exact later (pieces ▸ List.mem_cons_self) inSecond
            · exact later (pieces ▸ List.mem_cons_of_mem _ inRest) member

private theorem mem_of_mem_dropTabs {c : Char} {text : List Char}
    (member : c ∈ (Line.dropTabs text).2) : c ∈ text := by
  fun_induction Line.dropTabs text with
  | case1 text inner ih => exact List.mem_cons_of_mem _ (ih member)
  | case2 => exact member

/-- The fields of a line have no tab, and no character that the line does not have. -/
theorem mem_of_mem_field {number : Nat} {text field : String} {c : Char}
    (isField : field ∈ (Line.ofText number text).rest) (member : c ∈ field.toList) :
    c ∈ text.toList ∧ c ≠ '\t' := by
  obtain ⟨piece, isPiece, rfl⟩ := List.mem_map.1 (List.mem_of_mem_tail isField)
  rw [String.toList_ofList] at member
  obtain ⟨inBody, notTab⟩ := mem_of_mem_segments isPiece member
  exact ⟨mem_of_mem_dropTabs inBody, notTab⟩

private theorem newline_not_mem_textLines {text line : List Char} (isLine : line ∈ textLines text) :
    '\n' ∉ line := by
  intro newline
  unfold textLines at isLine
  rcases List.mem_append.1 isLine with ended | last
  · obtain ⟨piece, isPiece, rfl⟩ := List.mem_map.1 ended
    exact (mem_of_mem_segments (List.dropLast_subset _ isPiece) (mem_of_mem_dropReturn newline)).2 rfl
  · split at last
    · simp at last
    · rw [List.mem_singleton.1 last, List.getLastD_eq_getLast?] at newline
      cases final : (Text.segments '\n' text).getLast? with
      | none => simp [final] at newline
      | some piece =>
          rw [final, Option.getD_some] at newline
          exact (mem_of_mem_segments (List.mem_of_getLast? final) newline).2 rfl

private theorem line_of_mem_numberLines {texts : List (Option String)} {number : Nat} {line : Line}
    (member : some line ∈ numberLines number texts) :
    ∃ position text, some text ∈ texts ∧ line = Line.ofText position text := by
  induction texts generalizing number with
  | nil => simp [numberLines] at member
  | cons text texts ih =>
      rcases List.mem_cons.1 member with here | later
      · obtain ⟨own, isOwn, rfl⟩ := Option.map_eq_some_iff.1 here.symm
        exact ⟨number, own, isOwn ▸ List.mem_cons_self, rfl⟩
      · obtain ⟨position, own, isOwn, rfl⟩ := ih later
        exact ⟨position, own, List.mem_cons_of_mem _ isOwn, rfl⟩

/-- No field of a text has a separator. -/
theorem separators_not_mem_field {text : String} {line : Line}
    (member : some line ∈ numberLines 1 ((textLines text.toList).map fun line => some (String.ofList line)))
    {field : String} (isField : field ∈ line.rest) : '\t' ∉ field.toList ∧ '\n' ∉ field.toList := by
  obtain ⟨position, own, isOwn, rfl⟩ := line_of_mem_numberLines member
  obtain ⟨chars, isLine, same⟩ := List.mem_map.1 isOwn
  cases same
  refine ⟨fun tab => (mem_of_mem_field isField tab).2 rfl, fun newline => ?_⟩
  have inLine := (mem_of_mem_field isField newline).1
  rw [String.toList_ofList] at inLine
  exact newline_not_mem_textLines isLine inLine

private theorem lacks_of_read {mark : Char} (notDollar : mark ≠ '$') (notColon : mark ≠ ':')
    {lines : List (Option Line)}
    (lacking : ∀ line, some line ∈ lines → ∀ field ∈ line.rest, mark ∉ field.toList) {table : Table}
    (success : read lines = .ok table) : table.Lacks mark := by
  have kept : ∀ line, some line ∈ lines →
      KeptBy (Table.Lacks mark) (fun owner => mark ∉ owner.text.toList) line := by
    intro line member
    constructor
    · intro before name after lacks readOk
      exact lacks_of_readClass notDollar (lacking line member) lacks readOk
    · intro before owner after lacks ownerLacks readOk
      exact lacks_of_readMember notDollar (lacking line member) notColon lacks ownerLacks readOk
  refine property_of_read (fun header namespaces member headerOk => ?_) kept success
  obtain ⟨obfuscated, deobfuscated⟩ := lacks_of_readHeader (lacking header member) headerOk
  exact .empty obfuscated deobfuscated

/-- What is read from a text has no separators. -/
theorem lacks_of_readText {text : String} {table : Table} (success : readText text = .ok table) :
    table.Lacks '\t' ∧ table.Lacks '\n' := by
  refine ⟨lacks_of_read (by decide) (by decide) ?_ success, lacks_of_read (by decide) (by decide) ?_ success⟩
  · exact fun line member field isField => (separators_not_mem_field member isField).1
  · exact fun line member field isField => (separators_not_mem_field member isField).2

end Tiny

end MixinLink
