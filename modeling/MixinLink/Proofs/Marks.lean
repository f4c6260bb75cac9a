import MixinLink.Proofs.AccessorNames
import MixinLink.Proofs.ClassMapping
import MixinLink.Proofs.Completion
import MixinLink.Proofs.Evolution

/-!
# Marks in mapped names

The marks `(` and `:` tell the parts of a written reference apart. Remapping brings no mark into a
mapped name: a mapped name has a mark only where it was there before, or where the obfuscated name has it
as well.

Main exports: `Traces`, `Table.Traced`, `Table.Traced.evolves`, `Table.Traced.mapClass`,
`Table.PlainNames`.
-/

namespace MixinLink

/-- The characters that tell the parts of a reference apart. -/
def marks : List Char :=
  ['(', ':']

/-- Every mark of the mapped name is in the name as well. -/
def Traces (name mapped : String) : Prop :=
  ∀ mark ∈ marks, mark ∈ mapped.toList → mark ∈ name.toList

/-- A name traces itself. -/
theorem Traces.refl (name : String) : Traces name name :=
  fun _ _ member => member

/-- So do names with the same lead. -/
theorem Traces.append {name mapped : String} (traces : Traces name mapped) (lead : String) :
    Traces (lead ++ name) (lead ++ mapped) := by
  intro mark isMark member
  rw [String.toList_append, List.mem_append] at member ⊢
  exact member.imp_right (traces mark isMark)

/-! ## Accessor names -/

namespace Text

private theorem toNat_ofNat (n : Nat) : (Char.ofNat n).toNat = n ∨ (Char.ofNat n).toNat = 0 := by
  by_cases valid : n.isValidChar
  · rw [Char.ofNat, dif_pos valid]
    exact .inl rfl
  · rw [Char.ofNat, dif_neg valid]
    exact .inr rfl

private theorem ofNat_ne_mark {n : Nat} (letter : 65 ≤ n) {mark : Char} (isMark : mark ∈ marks) :
    Char.ofNat n ≠ mark := by
  intro same
  have code : mark.toNat = 40 ∨ mark.toNat = 58 := by
    rcases List.mem_cons.1 isMark with rfl | later
    · exact .inl rfl
    · rw [List.mem_singleton.1 later]
      exact .inr rfl
  have value := toNat_ofNat n
  rw [same] at value
  omega

private theorem caseRuns_letters : ∀ run ∈ caseRuns, 65 ≤ run.upper := by
  decide +kernel

private theorem longUppercase_letters : ∀ entry ∈ longUppercase, ∀ code ∈ entry.2, 65 ≤ code := by
  decide +kernel

private theorem mem_of_lookup {code : Nat} {codes : List Nat} {entries : List (Nat × List Nat)}
    (found : entries.lookup code = some codes) : (code, codes) ∈ entries := by
  induction entries with
  | nil => simp at found
  | cons first rest ih =>
      rw [List.lookup_cons] at found
      split at found
      · rename_i same
        cases found
        have key : code = first.1 := by simpa using same
        rw [key]
        exact List.mem_cons_self
      · exact List.mem_cons_of_mem _ (ih found)

/-- The uppercase form of a character has a mark only if the character is that mark. -/
theorem eq_of_mark_mem_uppercaseChar {mark c : Char} (isMark : mark ∈ marks)
    (member : mark ∈ uppercaseChar c) : mark = c := by
  unfold uppercaseChar at member
  split at member
  · rw [List.mem_singleton] at member
    unfold uppercaseAscii at member
    split at member
    · rename_i lower
      refine absurd member.symm (ofNat_ne_mark ?_ isMark)
      simp only [isLowerAscii, Bool.and_eq_true, decide_eq_true_eq, Char.le_def,
        UInt32.le_iff_toNat_le] at lower
      have atLeast : 97 ≤ c.toNat := lower.1
      omega
    · exact member
  · unfold uppercaseWide at member
    split at member
    · rename_i codes found
      obtain ⟨code, isCode, same⟩ := List.mem_map.1 member
      exact absurd same (ofNat_ne_mark (longUppercase_letters _ (mem_of_lookup found) _ isCode) isMark)
    · split at member
      · rename_i code found
        obtain ⟨run, isRun, shifted⟩ := List.exists_of_findSome?_eq_some found
        rw [List.mem_singleton] at member
        refine absurd member.symm (ofNat_ne_mark ?_ isMark)
        have letter := caseRuns_letters run isRun
        unfold CaseRun.shift? at shifted
        split at shifted
        · cases shifted
          omega
        · cases shifted
      · exact List.mem_singleton.1 member

private theorem mem_of_mem_beforeMarker {marker text : List Char} {c : Char}
    (member : c ∈ beforeMarker marker text) : c ∈ text := by
  induction text with
  | nil => exact member
  | cons first rest ih =>
      unfold beforeMarker at member
      split at member
      · simp at member
      · rcases List.mem_cons.1 member with rfl | later
        · exact List.mem_cons_self
        · exact List.mem_cons_of_mem _ (ih later)

end Text

namespace AccessorName

private theorem mark_mem_of_capitalize {mark : Char} (isMark : mark ∈ marks) {text : List Char}
    (member : mark ∈ capitalize text) : mark ∈ text := by
  cases text with
  | nil => exact member
  | cons first rest =>
      rcases List.mem_append.1 member with inFirst | later
      · rw [Text.eq_of_mark_mem_uppercaseChar isMark inFirst]
        exact List.mem_cons_self
      · exact List.mem_cons_of_mem _ later

private theorem mark_mem_of_memberCase {mark : Char} (isMark : mark ∈ marks) {text : List Char}
    (member : mark ∈ memberCase text) : mark ∈ text := by
  cases text with
  | nil => exact member
  | cons first rest =>
      unfold memberCase at member
      dsimp only at member
      split at member
      · exact member
      · rcases List.mem_cons.1 member with same | later
        · unfold Text.lowercaseAscii at same
          split at same
          · refine absurd same.symm (Text.ofNat_ne_mark ?_ isMark)
            rename_i upper
            simp only [Text.isUpperAscii, Bool.and_eq_true, decide_eq_true_eq, Char.le_def,
              UInt32.le_iff_toNat_le] at upper
            have atLeast : 65 ≤ first.toNat := upper.1
            omega
          · rw [same]
            exact List.mem_cons_self
        · exact List.mem_cons_of_mem _ later

private theorem mem_of_mem_dropMerged {c : Char} {text : List Char} (member : c ∈ dropMerged text) :
    c ∈ text := by
  cases text with
  | nil => exact member
  | cons first rest =>
      rcases List.mem_cons.1 member with rfl | later
      · exact List.mem_cons_self
      · exact List.mem_cons_of_mem _ (Text.mem_of_mem_beforeMarker later)

/-- The name that an accessor gets has a mark only where its own name has it. -/
theorem traces_withMember {method mapped : String} {accessor : AccessorName}
    (parsed : parse? method = some accessor) (traces : Traces accessor.member mapped) :
    Traces method (accessor.withMember mapped) := by
  obtain ⟨rest, whole, _, isMember⟩ := split_of_parse? parsed
  intro mark isMark member
  rw [withMember, join, String.toList_append, String.toList_ofList, List.mem_append] at member
  rw [whole, List.mem_append]
  apply member.imp_right
  intro inMapped
  have inMember := traces mark isMark (mark_mem_of_capitalize isMark inMapped)
  rw [isMember] at inMember
  exact mem_of_mem_dropMerged (mark_mem_of_memberCase isMark inMember)

end AccessorName

/-! ## Entries -/

/-- The mapped names of an entry have marks only where the names have them. -/
structure ClassEntry.TracedAt (keys : List String) (entry : ClassEntry) : Prop where
  mapped : '(' ∈ entry.mapped.toList → ∃ key ∈ keys, '(' ∈ key.toList
  fields : Assoc.All (fun signature mapping => Traces signature.name.text mapping.mapped.text) entry.fields
  methods : Assoc.All (fun signature mapping => Traces signature.name.text mapping.mapped.text) entry.methods

/-- All mapped names of the table have marks only where the names have them. -/
def Table.Traced (table : Table) : Prop :=
  table.classes.All ClassEntry.TracedAt []

/-- No mapped name of the entry has a mark; the mapped class name may have a `:`. -/
structure ClassEntry.PlainNames (entry : ClassEntry) : Prop where
  mapped : '(' ∉ entry.mapped.toList
  fields : ∀ field ∈ entry.fields, ∀ mark ∈ marks, mark ∉ field.2.mapped.text.toList
  methods : ∀ method ∈ entry.methods, ∀ mark ∈ marks, mark ∉ method.2.mapped.text.toList

-- the marks are gone through one by one, not all characters
instance (text : String) : Decidable (∀ mark ∈ marks, mark ∉ text.toList) :=
  List.decidableBAll _ marks

instance (entry : ClassEntry) : Decidable entry.PlainNames :=
  decidable_of_iff
    ('(' ∉ entry.mapped.toList
      ∧ (∀ field ∈ entry.fields, ∀ mark ∈ marks, mark ∉ field.2.mapped.text.toList)
      ∧ ∀ method ∈ entry.methods, ∀ mark ∈ marks, mark ∉ method.2.mapped.text.toList)
    ⟨fun parts => ⟨parts.1, parts.2.1, parts.2.2⟩, fun plain => ⟨plain.mapped, plain.fields, plain.methods⟩⟩

/-- No mapped name of the table has a mark. -/
def Table.PlainNames (table : Table) : Prop :=
  table.classes.All (fun _ entry => entry.PlainNames) []

instance (table : Table) : Decidable table.PlainNames :=
  inferInstanceAs (Decidable (table.classes.All _ []))

/-- Names without marks can be traced. -/
theorem Table.PlainNames.traced {table : Table} (plain : table.PlainNames) : table.Traced := by
  apply ClassForest.all_iff_stored.2
  intro keys entry below isStored
  have names := ClassForest.all_iff_stored.1 plain keys entry below isStored
  refine ⟨fun member => absurd member names.mapped, fun field isField mark isMark member => ?_,
    fun method isMethod mark isMark member => ?_⟩
  · exact absurd member (names.fields field isField mark isMark)
  · exact absurd member (names.methods method isMethod mark isMark)

namespace ClassEntry.TracedAt

variable {keys : List String} {entry : ClassEntry}

/-- An entry that is added keeps the name that it is stored under. -/
theorem fresh {name : ClassName} {key : String} (isKey : key ∈ keys) : TracedAt keys (.fresh name key) :=
  ⟨fun member => ⟨key, isKey, member⟩, Assoc.all_nil, Assoc.all_nil⟩

/-- A field may get a name that has marks only where its own name has them. -/
theorem mapField (traced : TracedAt keys entry) {signature : FieldSignature} {mapped : FieldName}
    (traces : Traces signature.name.text mapped.text) : TracedAt keys (entry.mapField signature mapped) :=
  ⟨traced.mapped, traced.fields.upsert traces fun _ _ => traces, traced.methods⟩

/-- A method may get a name that has marks only where its own name has them. -/
theorem mapMethod (traced : TracedAt keys entry) {signature : MethodSignature} {mapped : MethodName}
    (traces : Traces signature.name.text mapped.text) : TracedAt keys (entry.mapMethod signature mapped) :=
  ⟨traced.mapped, traced.fields, traced.methods.upsert traces fun _ _ => traces⟩

/-- A field that a look-up adds has the name that it had with its type left open. -/
theorem resolveField (traced : TracedAt keys entry) (signature : FieldSignature) :
    TracedAt keys (entry.resolveField signature).2 := by
  refine ⟨?_, ClassEntry.all_fields_resolveField traced.fields fun _ traces => traces, ?_⟩
  · rcases entry.resolveField_adds signature with same | ⟨_, _, added⟩
    · rw [same]
      exact traced.mapped
    · rw [added]
      exact traced.mapped
  · rw [ClassEntry.methods_resolveField]
    exact traced.methods

/-- Members that are added have to have marks only where their own names have them. -/
theorem completeWith (traced : TracedAt keys entry) {fields : List (FieldSignature × FieldName)}
    {methods : List (MethodSignature × MethodName)}
    (fieldsTraced : ∀ field ∈ fields, Traces field.1.name.text field.2.text)
    (methodsTraced : ∀ method ∈ methods, Traces method.1.name.text method.2.text) :
    TracedAt keys (entry.completeWith fields methods) :=
  ⟨traced.mapped, Table.all_append_missing traced.fields fieldsTraced,
    Table.all_append_missing traced.methods methodsTraced⟩

end ClassEntry.TracedAt

/-! ## Tables -/

namespace Table.Traced

variable {table : Table}

/-- The entry of a class in such a table. -/
theorem tracedAt (traced : table.Traced) {name : ClassName} {entry : ClassEntry}
    (found : table.find? name = some entry) : ClassEntry.TracedAt name.path entry :=
  ClassForest.All.entryAt? traced found

/-- The names of members that such a table maps. -/
theorem mapsMember (traced : table.Traced) {name mapped : String} (maps : table.MapsMember name mapped) :
    Traces name mapped := by
  obtain ⟨owner, entry, found, member⟩ := maps
  rcases member with ⟨field, isField, rfl, rfl⟩ | ⟨method, isMethod, rfl, rfl⟩
  · exact (traced.tracedAt found).fields field isField
  · exact (traced.tracedAt found).methods method isMethod

/-- Changing an entry in such a way keeps the table traced. -/
theorem update (traced : table.Traced) {name : ClassName} {change : ClassEntry → ClassEntry}
    (kept : ∀ entry, ClassEntry.TracedAt name.path entry →
      ClassEntry.TracedAt name.path (change entry)) : (table.update name change).Traced := by
  refine ClassForest.All.update traced ?_ ?_
  · intro before key other after _
    exact .fresh (by simp)
  · rw [List.nil_append, ClassName.keys_trail]
    exact kept

/-- The name that a field inherits has marks only where its own has them. -/
theorem nearestFieldName (traced : table.Traced) (lineage : List ClassName) (signature : FieldSignature) :
    Traces signature.name.text (table.nearestFieldName lineage signature).text := by
  rcases table.nearestFieldName_cases lineage signature with own | ⟨_, _, _, present, stored, isNearest⟩
  · rw [own]
    exact .refl _
  · rw [isNearest]
    exact (traced.tracedAt present).fields _ stored

/-- The name that a method inherits has marks only where its own has them. -/
theorem nearestMethodName (traced : table.Traced) (lineage : List ClassName)
    (signature : MethodSignature) :
    Traces signature.name.text (table.nearestMethodName lineage signature).text := by
  rcases table.nearestMethodName_cases lineage signature with own | ⟨_, _, _, present, stored, isNearest⟩
  · rw [own]
    exact .refl _
  · rw [isNearest]
    exact (traced.tracedAt present).methods _ stored

/-- Completing a class keeps the table traced. -/
theorem complete (traced : table.Traced) (hierarchy : Hierarchy) (name : ClassName) :
    (table.complete hierarchy name).value.Traced := by
  rw [Table.complete_value]
  split
  · exact traced
  · refine traced.update fun entry entryTraced => entryTraced.completeWith ?_ ?_
    · exact Table.forall_inheritedFields fun lineage signature => traced.nearestFieldName lineage signature
    · exact Table.forall_inheritedMethods fun lineage signature => traced.nearestMethodName lineage signature

/-- Looking up a field keeps the table traced. -/
theorem resolveField (traced : table.Traced) (owner : ClassName) (signature : FieldSignature) :
    (table.resolveField owner signature).2.Traced := by
  unfold Table.resolveField
  split
  · exact traced
  · exact traced.update fun _ entryTraced => entryTraced.resolveField signature

/-- Each change of remapping keeps the table traced. -/
theorem change {hierarchy : Hierarchy} {decls : List ClassDecl} {after : Table} (traced : table.Traced)
    (step : Change hierarchy decls table after) : after.Traced := by
  cases step with
  | complete name => exact traced.complete hierarchy name
  | lookUp owner signature => exact traced.resolveField owner signature
  | nameField _ _ maps own given =>
      refine traced.update fun _ entryTraced => entryTraced.mapField ?_
      rw [FieldDecl.signature, own, given]
      exact (traced.mapsMember maps).append _
  | nameMethod _ _ maps own given =>
      refine traced.update fun _ entryTraced => entryTraced.mapMethod ?_
      rw [MethodDecl.signature, own, given]
      exact (traced.mapsMember maps).append _
  | nameAccessor _ _ _ parsed maps given =>
      refine traced.update fun _ entryTraced => entryTraced.mapMethod ?_
      rw [MethodDecl.signature, given]
      exact AccessorName.traces_withMember parsed (traced.mapsMember maps)

/-- So do all changes one after the other. -/
theorem evolves {hierarchy : Hierarchy} {decls : List ClassDecl} {after : Table} (traced : table.Traced)
    (changes : Evolves hierarchy decls table after) : after.Traced := by
  induction changes with
  | refl => exact traced
  | tail _ last ih => exact ih.change last

/-! ## Mapped class names -/

/-- A parenthesis in the mapped name of a class comes from its name. -/
theorem mappedPath {forest : ClassForest} {outer keys : List String} {mapped : String}
    (traced : forest.All ClassEntry.TracedAt outer) (member : mapped ∈ forest.mappedPath keys)
    (mark : '(' ∈ mapped.toList) : ∃ key ∈ outer ++ keys, '(' ∈ key.toList := by
  induction forest generalizing outer keys with
  | nil => exact ⟨mapped, List.mem_append_right _ member, mark⟩
  | cons key entry inner rest innerIh restIh =>
      obtain ⟨entryTraced, innerTraced, restTraced⟩ := traced
      cases keys with
      | nil => simp [ClassForest.mappedPath] at member
      | cons k ks =>
          by_cases same : key = k
          · subst same
            simp only [ClassForest.mappedPath, if_true, List.mem_cons] at member
            rcases member with rfl | later
            · obtain ⟨found, isKey, inKey⟩ := entryTraced.mapped mark
              refine ⟨found, ?_, inKey⟩
              rcases List.mem_append.1 isKey with isOuter | isKey
              · exact List.mem_append_left _ isOuter
              · rw [List.mem_singleton.1 isKey]
                exact List.mem_append_right _ List.mem_cons_self
            · obtain ⟨found, isKey, inKey⟩ := innerIh innerTraced later
              exact ⟨found, by simpa using isKey, inKey⟩
          · simp only [ClassForest.mappedPath, same, if_false] at member
            exact restIh restTraced member

/-- A mapped class name has a `(` only if the class name has one. -/
theorem mapClass (traced : table.Traced) {name mapped : ClassName}
    (success : table.mapClass name = .ok mapped) (mark : '(' ∈ mapped.text.toList) :
    '(' ∈ name.text.toList := by
  have notDollar : '(' ≠ '$' := by decide
  rw [Table.mapClass_eq_ok.1 success, mappedText, mem_intercalate_dollar notDollar] at mark
  obtain ⟨text, member, inText⟩ := mark
  rw [name.text_eq_intercalate_path, mem_intercalate_dollar notDollar]
  exact mappedPath traced member inText

/-- The mapped type of a field has a parenthesis only if the type has one. -/
theorem mapFieldType (traced : table.Traced) {type mapped : FieldType}
    (success : table.mapFieldType type = .ok mapped) (plain : '(' ∉ type.chars) : '(' ∉ mapped.chars := by
  unfold Table.mapFieldType at success
  split at success
  · rename_i base mapsBase
    cases success
    intro mark
    apply plain
    apply (List.mem_append.1 mark).elim (List.mem_append_left _)
    intro inBase
    refine List.mem_append_right _ ?_
    cases isBase : type.base with
    | primitive primitive =>
        rw [isBase] at mapsBase
        cases mapsBase
        exact inBase
    | object name =>
        rw [isBase, Table.mapBaseType] at mapsBase
        split at mapsBase
        · rename_i mappedName mapsName
          cases mapsBase
          simp only [BaseType.chars, List.mem_cons, List.mem_append] at inBase ⊢
          exact inBase.imp_right (Or.imp_left (traced.mapClass mapsName))
        · cases mapsBase
  · cases success

end Table.Traced

end MixinLink
