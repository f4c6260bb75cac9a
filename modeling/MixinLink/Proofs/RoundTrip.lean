import MixinLink.Proofs.NestedNames
import MixinLink.Proofs.Rereading

/-!
# Writing a table and reading it again

A written text leaves out entries and members that keep their names, and gives a nested class its whole
mapped name, so reading it again does not give the same table. But it gives all classes, methods and typed
fields the same mapped names, and the same text again. It takes a table without separators, and without
`$` in mapped names where these would be taken for others.

What is read is compared with the table through `Table.entryOf`: the entries that were left out kept
their names, like those that are not there.

Main exports: `Tiny.WrittenAlike`, `Tiny.Block.filled`, `Tiny.entryOf_foldl_apply`, `Table.SameRenames`,
`Table.Writable`, `Tiny.writtenAlike_reread`, `Tiny.readText_write_of_reachable`.
-/

namespace MixinLink

/-! ## Adding keys one after the other -/

namespace Assoc

variable {κ ν : Type} [DecidableEq κ]

/-- A key that is not there yet is added at the end. -/
theorem upsert_of_not_mem {key : κ} {entries : List (κ × ν)} (new : key ∉ entries.map Prod.fst)
    (start : ν) (change : ν → ν) : upsert key start change entries = entries ++ [(key, change start)] := by
  induction entries with
  | nil => rfl
  | cons first rest ih =>
      simp only [List.map_cons, List.mem_cons, not_or] at new
      rw [upsert, if_neg (Ne.symm new.1), ih new.2, List.cons_append]

/-- Different keys that are not there yet are added in their order. -/
theorem foldl_upsert {start : κ × ν → ν} {change : κ × ν → ν → ν} {entries more : List (κ × ν)}
    (made : ∀ pair ∈ more, change pair (start pair) = pair.2) (unique : Unique (entries ++ more)) :
    more.foldl (fun entries pair => upsert pair.1 (start pair) (change pair) entries) entries
      = entries ++ more := by
  induction more generalizing entries with
  | nil => simp
  | cons pair more ih =>
      have new : pair.1 ∉ entries.map Prod.fst := by
        rw [Unique, List.map_append, List.nodup_append] at unique
        exact fun member => unique.2.2 _ member _ (List.mem_map_of_mem List.mem_cons_self) rfl
      obtain ⟨madeFirst, madeOthers⟩ := List.forall_mem_cons.1 made
      rw [List.foldl_cons, upsert_of_not_mem new, madeFirst, ih madeOthers (by simpa using unique),
        List.append_assoc, List.singleton_append]

variable {entries : List (κ × ν)} {tell : ν → κ}

/-- Values stored under what they tell are found by what they tell and by the rest of them. -/
theorem mem_values_iff {μ : Type} {told : ν → μ}
    (determined : ∀ a b, tell a = tell b → told a = told b → a = b)
    (unique : Unique entries) (keyed : All (fun key value => tell value = key) entries) {value : ν} :
    value ∈ entries.map Prod.snd ↔ (find? (tell value) entries).map told = some (told value) := by
  constructor
  · rintro member
    obtain ⟨pair, isPair, rfl⟩ := List.mem_map.1 member
    have isKey : tell pair.2 = pair.1 := keyed pair isPair
    rw [isKey, (find?_eq_some_iff_mem unique).2 isPair, Option.map_some]
  · intro found
    obtain ⟨other, isOther, same⟩ := Option.map_eq_some_iff.1 found
    have isKey : tell other = tell value := keyed.of_find? isOther
    rw [← determined other value isKey same]
    exact List.mem_map_of_mem (mem_of_find? isOther)

omit [DecidableEq κ] in
/-- Values stored under what they tell all tell something else. -/
theorem nodup_map_values (unique : Unique entries)
    (keyed : All (fun key value => tell value = key) entries) :
    ((entries.map Prod.snd).map tell).Nodup := by
  have keys : (entries.map Prod.snd).map tell = entries.map Prod.fst := by
    rw [List.map_map]
    exact List.map_congr_left keyed
  rwa [keys]

end Assoc

/-! ## The order of members -/

section Order

variable {α : Type} {key : α → String} {below order : α → α → Bool}
  (byKey : ∀ a b, order a b = if key a = key b then below a b else decide (key a ≤ key b))

include byKey

/-- An order by a key, and among the same keys by another transitive order, is transitive. -/
theorem trans_of_byKey (trans : ∀ a b c, below a b = true → below b c = true → below a c = true)
    (a b c : α) (first : order a b = true) (second : order b c = true) : order a c = true := by
  rw [byKey] at first second ⊢
  split at first
  · rename_i same
    rw [same]
    split at second
    · rename_i sameNext
      rw [if_pos sameNext]
      exact trans a b c first second
    · rename_i differ
      rwa [if_neg differ]
  · rename_i differ
    rw [decide_eq_true_eq] at first
    split at second
    · rename_i same
      rw [← same, if_neg differ]
      exact decide_eq_true first
    · rw [decide_eq_true_eq] at second
      have apart : key a ≠ key c := fun same => differ (le_antisymm first (same ▸ second))
      rw [if_neg apart]
      exact decide_eq_true (first.trans second)

/-- An order by a key, and among the same keys by another total order, is total. -/
theorem total_of_byKey (total : ∀ a b, (below a b || below b a) = true) (a b : α) :
    (order a b || order b a) = true := by
  rw [byKey, byKey]
  by_cases same : key a = key b
  · rw [if_pos same, if_pos same.symm]
    exact total a b
  · rw [if_neg same, if_neg (Ne.symm same)]
    simpa using le_total (key a) (key b)

end Order

/-- The order of the types of fields of one name. -/
def FieldSignature.typePrecedes (a b : FieldSignature) : Bool :=
  match a.type, b.type with
  | none, _ => true
  | some _, none => false
  | some first, some second => first.descriptor ≤ second.descriptor

/-- Fields are ordered by their names, and then by their types. -/
theorem FieldSignature.precedes_byKey (a b : FieldSignature) :
    a.precedes b
      = if a.name.text = b.name.text then a.typePrecedes b else decide (a.name.text ≤ b.name.text) :=
  rfl

namespace Tiny

variable {entry other : ClassEntry}

/-- Written fields are sorted. -/
theorem sorted_writtenFields (entry : ClassEntry) :
    (writtenFields entry).Pairwise fun a b => a.signature.precedes b.signature = true := by
  refine List.pairwise_mergeSort ?_ ?_ _
  · refine trans_of_byKey (fun a b => a.signature.precedes_byKey b.signature) fun a b c first second => ?_
    unfold FieldSignature.typePrecedes at first second ⊢
    grind
  · refine total_of_byKey (fun a b => a.signature.precedes_byKey b.signature) fun a b => ?_
    unfold FieldSignature.typePrecedes
    grind

/-- Written methods are sorted. -/
theorem sorted_writtenMethods (entry : ClassEntry) :
    (writtenMethods entry).Pairwise fun a b => a.signature.precedesByType b.signature = true := by
  refine List.pairwise_mergeSort ?_ ?_ _
  · refine trans_of_byKey (fun a b => rfl) fun a b c first second => ?_
    rw [decide_eq_true_eq] at first second ⊢
    exact first.trans second
  · refine total_of_byKey (fun a b => rfl) fun a b => ?_
    simpa using le_total a.signature.name.text b.signature.name.text

/-! ## Written members -/

/-- A field is written if it is known under a type and renamed. -/
theorem mem_writtenFields (keyed : entry.MembersKeyed) {field : FieldMapping} :
    field ∈ writtenFields entry
      ↔ (entry.field? field.signature).map FieldMapping.mapped = some field.mapped
        ∧ field.mapped ≠ field.signature.name ∧ field.signature.type.isSome = true := by
  simp only [writtenFields, List.mem_mergeSort, List.mem_filter, ClassEntry.fieldMappings,
    FieldMapping.isRenamed, Bool.and_eq_true, decide_eq_true_eq]
  refine and_congr_left fun _ => Assoc.mem_values_iff ?_ keyed.uniqueFields keyed.fields
  rintro ⟨_, _⟩ ⟨_, _⟩ rfl rfl
  rfl

/-- A method is written if it is renamed. -/
theorem mem_writtenMethods (keyed : entry.MembersKeyed) {method : MethodMapping} :
    method ∈ writtenMethods entry
      ↔ (entry.method? method.signature).map MethodMapping.mapped = some method.mapped
        ∧ method.mapped ≠ method.signature.name := by
  simp only [writtenMethods, List.mem_mergeSort, List.mem_filter, ClassEntry.methodMappings,
    MethodMapping.isRenamed, decide_eq_true_eq]
  refine and_congr_left fun _ => Assoc.mem_values_iff ?_ keyed.uniqueMethods keyed.methods
  rintro ⟨_, _⟩ ⟨_, _⟩ rfl rfl
  rfl

/-- Filtering and sorting members repeats nothing. -/
theorem nodup_map_mergeSort_filter {α β : Type} {tell : α → β} {members : List α} {keep : α → Bool}
    {order : α → α → Bool} (nodup : (members.map tell).Nodup) :
    (((members.filter keep).mergeSort order).map tell).Nodup := by
  rw [((List.mergeSort_perm _ _).map tell).nodup_iff]
  exact nodup.sublist (List.filter_sublist.map tell)

/-- Of an entry that keeps its name no members are written. -/
theorem written_fresh (name : ClassName) (key : String) :
    writtenFields (.fresh name key) = [] ∧ writtenMethods (.fresh name key) = [] := by
  simp [writtenFields, writtenMethods, ClassEntry.fieldMappings, ClassEntry.methodMappings, ClassEntry.fresh]

/-- No field is written twice. -/
theorem nodup_writtenFields (keyed : entry.MembersKeyed) :
    ((writtenFields entry).map FieldMapping.signature).Nodup :=
  nodup_map_mergeSort_filter (Assoc.nodup_map_values keyed.uniqueFields keyed.fields)

/-- No method is written twice. -/
theorem nodup_writtenMethods (keyed : entry.MembersKeyed) :
    ((writtenMethods entry).map MethodMapping.signature).Nodup :=
  nodup_map_mergeSort_filter (Assoc.nodup_map_values keyed.uniqueMethods keyed.methods)

/-- What is written of two entries is the same. -/
structure WrittenAlike (first second : ClassEntry) : Prop where
  mapped : first.mapped = second.mapped
  fields : writtenFields first = writtenFields second
  methods : writtenMethods first = writtenMethods second

/-- The comparison goes both ways. -/
theorem WrittenAlike.symm {first second : ClassEntry} (alike : WrittenAlike first second) :
    WrittenAlike second first :=
  ⟨alike.mapped.symm, alike.fields.symm, alike.methods.symm⟩

/-- Mapped names are the same if those that differ from the own name are. -/
theorem getD_eq_of_renamed {ν : Type} {first second : Option ν} {own : ν}
    (same : ∀ value, value ≠ own → (first = some value ↔ second = some value)) :
    first.getD own = second.getD own := by
  cases first with
  | none =>
      cases second with
      | none => rfl
      | some other => grind
  | some value =>
      cases second with
      | none => grind
      | some other => by_cases kept : value = own <;> grind

namespace WrittenAlike

variable (alike : WrittenAlike entry other) (keyed : entry.MembersKeyed) (otherKeyed : other.MembersKeyed)

include alike keyed otherKeyed

/-- Typed fields have the same mapped names in entries of which the same is written. -/
theorem fieldName {signature : FieldSignature} (typed : signature.type.isSome = true) :
    ((entry.field? signature).map FieldMapping.mapped).getD signature.name
      = ((other.field? signature).map FieldMapping.mapped).getD signature.name := by
  refine getD_eq_of_renamed fun value renamed => ?_
  have written : FieldMapping.mk signature value ∈ writtenFields entry ↔ _ := mem_writtenFields keyed
  rw [alike.fields, mem_writtenFields otherKeyed] at written
  simpa [renamed, typed] using written.symm

/-- Methods have the same mapped names in entries of which the same is written. -/
theorem methodName (signature : MethodSignature) :
    ((entry.method? signature).map MethodMapping.mapped).getD signature.name
      = ((other.method? signature).map MethodMapping.mapped).getD signature.name := by
  refine getD_eq_of_renamed fun value renamed => ?_
  have written : MethodMapping.mk signature value ∈ writtenMethods entry ↔ _ := mem_writtenMethods keyed
  rw [alike.methods, mem_writtenMethods otherKeyed] at written
  simpa [renamed] using written.symm

end WrittenAlike

/-! ## The entry that is read from a block -/

/-- The entry that a block makes. -/
def Block.filled (block : Block) : ClassEntry where
  name := block.name
  mapped := storedPart block.name block.mapped
  fields := block.fields.map fun field => (field.signature, field)
  methods := block.methods.map fun method => (method.signature, method)
  completed := false

/-- Rows of renamed fields map these fields. -/
theorem foldl_fieldMember (entry : ClassEntry) {fields : List FieldMapping}
    (typed : ∀ field ∈ fields, field.signature.type.isSome = true)
    (noReturn : ∀ field ∈ fields, '\r' ∉ field.mapped.text.toList) :
    (fields.filterMap fieldMember?).foldl (fun entry member => member.add entry) entry
      = { entry with
          fields := (fields.map fun field => (field.signature, field)).foldl
            (fun entries pair => Assoc.upsert pair.1 (.identity pair.1)
              ({ · with mapped := pair.2.mapped }) entries) entry.fields } := by
  induction fields generalizing entry with
  | nil => rfl
  | cons field fields ih =>
      obtain ⟨known, othersTyped⟩ := List.forall_mem_cons.1 typed
      obtain ⟨kept, othersKept⟩ := List.forall_mem_cons.1 noReturn
      obtain ⟨⟨name, _ | type⟩, mapped⟩ := field
      · cases known
      have seen : seenField mapped = some mapped := by
        rw [seenField, withoutReturn_of_not_mem kept, FieldName.parse_eq_ok.2 rfl]
        rfl
      have member : fieldMember? ⟨⟨name, some type⟩, mapped⟩ = some (.field name type (some mapped)) := by
        rw [← seen]
        rfl
      rw [List.filterMap_cons_some member, List.foldl_cons, ih _ othersTyped othersKept]
      rfl

/-- Rows of renamed methods map these methods. -/
theorem foldl_methodMember (entry : ClassEntry) {methods : List MethodMapping}
    (noReturn : ∀ method ∈ methods, '\r' ∉ method.mapped.text.toList) :
    (methods.map methodMember).foldl (fun entry member => member.add entry) entry
      = { entry with
          methods := (methods.map fun method => (method.signature, method)).foldl
            (fun entries pair => Assoc.upsert pair.1 (.identity pair.1)
              ({ · with mapped := pair.2.mapped }) entries) entry.methods } := by
  induction methods generalizing entry with
  | nil => rfl
  | cons method methods ih =>
      obtain ⟨kept, othersKept⟩ := List.forall_mem_cons.1 noReturn
      have seen : seenMethod method.mapped = some method.mapped := by
        rw [seenMethod, withoutReturn_of_not_mem kept, MethodName.parse_eq_ok.2 rfl]
        rfl
      rw [List.map_cons, List.foldl_cons, ih _ othersKept, methodMember, seen]
      rfl

section Told

variable {table : Table} {block : Block} (sound : table.Sound) (tells : Tells table block)

include sound tells

/-- Without carriage returns, a block is read as it is written. -/
theorem fill_seen_of_tells (noReturn : table.Lacks '\r') :
    block.seen.fill (.fresh block.name block.name.key) = block.filled := by
  have noReturns := lacks_of_tells tells sound noReturn (by decide)
  simp only [Block.rows, List.forall_mem_cons, List.forall_mem_append, List.forall_mem_map] at noReturns
  obtain ⟨classKept, fieldsKept, methodsKept⟩ := noReturns
  obtain ⟨entry, found, fields, methods⟩ := tells.members
  have keyed := (sound.soundAt found).members
  have uniqueFields : Assoc.Unique (block.fields.map fun field => (field.signature, field)) := by
    rw [Assoc.Unique, List.map_map, fields]
    exact nodup_writtenFields keyed
  have uniqueMethods : Assoc.Unique (block.methods.map fun method => (method.signature, method)) := by
    rw [Assoc.Unique, List.map_map, methods]
    exact nodup_writtenMethods keyed
  have mappedKept : '\r' ∉ block.mapped.text.toList := classKept _ (by simp [classRow])
  have fieldKept : ∀ field ∈ block.fields, '\r' ∉ field.mapped.text.toList :=
    fun field member => fieldsKept field member _ (by simp [fieldRow])
  have methodKept : ∀ method ∈ block.methods, '\r' ∉ method.mapped.text.toList :=
    fun method member => methodsKept method member _ (by simp [methodRow])
  rw [RowBlock.fill, Block.seen, withoutReturn_of_not_mem mappedKept, nameClass_text, List.foldl_append,
    foldl_fieldMember _ (typed_of_tells tells) fieldKept, foldl_methodMember _ methodKept]
  simp only [ClassEntry.fresh]
  rw [Assoc.foldl_upsert (List.forall_mem_map.2 fun _ _ => rfl) (by simpa using uniqueFields),
    Assoc.foldl_upsert (List.forall_mem_map.2 fun _ _ => rfl) (by simpa using uniqueMethods)]
  rfl

/-- A block makes an entry of which the same is written as of the entry that the block is about. -/
theorem writtenAlike_filled (plain : table.classes.All (fun _ entry => entry.PlainMapped) []) :
    WrittenAlike (table.entryOf block.name) block.filled := by
  obtain ⟨entry, found, fields, methods⟩ := tells.members
  rw [Table.entryOf_of_find? found]
  refine ⟨(sound.storedPart_mapClass plain found tells.mapped).symm, ?_, ?_⟩
  · have mappings : block.filled.fieldMappings = writtenFields entry := by
      rw [ClassEntry.fieldMappings, Block.filled, List.map_map, ← fields]
      exact List.map_id _
    have kept : ∀ field ∈ writtenFields entry,
        (field.isRenamed && field.signature.type.isSome) = true := by
      intro field member
      exact (List.mem_filter.1 (List.mem_mergeSort.1 member)).2
    rw [writtenFields.eq_1 block.filled, mappings, List.filter_eq_self.2 kept,
      List.mergeSort_of_pairwise (sorted_writtenFields entry)]
  · have mappings : block.filled.methodMappings = writtenMethods entry := by
      rw [ClassEntry.methodMappings, Block.filled, List.map_map, ← methods]
      exact List.map_id _
    have kept : ∀ method ∈ writtenMethods entry, method.isRenamed = true := by
      intro method member
      exact (List.mem_filter.1 (List.mem_mergeSort.1 member)).2
    rw [writtenMethods.eq_1 block.filled, mappings, List.filter_eq_self.2 kept,
      List.mergeSort_of_pairwise (sorted_writtenMethods entry)]

end Told

/-! ## The table that is read from blocks -/

section Fold

variable (blocks : List RowBlock) (table : Table)

/-- Blocks leave the namespaces. -/
theorem namespaces_foldl_apply : (blocks.foldl RowBlock.apply table).namespaces = table.namespaces := by
  induction blocks generalizing table with
  | nil => rfl
  | cons block blocks ih =>
      rw [List.foldl_cons, ih]
      rfl

/-- Blocks add the classes that they are about and the classes around them. -/
theorem isSome_find?_foldl_apply (name : ClassName) :
    ((blocks.foldl RowBlock.apply table).find? name).isSome
      ↔ (table.find? name).isSome ∨ ∃ block ∈ blocks, name.path <+: block.name.path := by
  induction blocks generalizing table with
  | nil => simp
  | cons block blocks ih =>
      have step : ((block.apply table).find? name).isSome
          ↔ (table.find? name).isSome ∨ name.path <+: block.name.path := by
        rw [RowBlock.apply, Table.find?_update, Option.isSome_map, Option.isSome_or, Bool.or_eq_true]
        by_cases around : name.path <+: block.name.path <;> simp [around]
      rw [List.foldl_cons, ih, step, List.exists_mem_cons_iff, or_assoc]

/-- Blocks leave the entries of classes that they are not about. -/
theorem entryOf_foldl_apply_of_not_mem {name : ClassName} (absent : name ∉ blocks.map RowBlock.name) :
    (blocks.foldl RowBlock.apply table).entryOf name = table.entryOf name := by
  induction blocks generalizing table with
  | nil => rfl
  | cons block blocks ih =>
      simp only [List.map_cons, List.mem_cons, not_or] at absent
      rw [List.foldl_cons, ih _ absent.2, RowBlock.apply, Table.entryOf_update, if_neg absent.1]

variable {blocks}

/-- Blocks about different classes each fill the entry of their class. -/
theorem entryOf_foldl_apply (distinct : (blocks.map RowBlock.name).Nodup) {block : RowBlock}
    (member : block ∈ blocks) :
    (blocks.foldl RowBlock.apply table).entryOf block.name = block.fill (table.entryOf block.name) := by
  induction blocks generalizing table with
  | nil => cases member
  | cons first blocks ih =>
      rw [List.map_cons, List.nodup_cons] at distinct
      rw [List.foldl_cons]
      rcases List.mem_cons.1 member with rfl | later
      · rw [entryOf_foldl_apply_of_not_mem _ _ distinct.1, RowBlock.apply, Table.entryOf_update, if_pos rfl]
      · have other : block.name ≠ first.name := by
          intro same
          exact distinct.1 (same ▸ List.mem_map_of_mem later)
        rw [ih _ distinct.2 later, RowBlock.apply, Table.entryOf_update, if_neg other]

end Fold

end Tiny

/-! ## The same renames -/

namespace Table

/-- The mapped name of a field, which is its own name if it has no mapping. -/
def fieldName (table : Table) (owner : ClassName) (signature : FieldSignature) : FieldName :=
  (((table.find? owner).bind (·.field? signature)).map FieldMapping.mapped).getD signature.name

/-- The mapped name of a method, which is its own name if it has no mapping. -/
def methodName (table : Table) (owner : ClassName) (signature : MethodSignature) : MethodName :=
  ((table.method? owner signature).map MethodMapping.mapped).getD signature.name

/-- Two tables that give all classes, all methods and all typed fields the same mapped names. -/
structure SameRenames (first second : Table) : Prop where
  namespaces : first.namespaces = second.namespaces
  classes : ∀ name, first.mapClass name = second.mapClass name
  methods : ∀ owner signature, first.methodName owner signature = second.methodName owner signature
  fields : ∀ owner name type,
    first.fieldName owner ⟨name, some type⟩ = second.fieldName owner ⟨name, some type⟩

/-- No separator is part of a name, and no mapped name has a `$` where it would be taken for another
one. -/
structure Writable (table : Table) : Prop where
  noTab : table.Lacks '\t'
  noNewline : table.Lacks '\n'
  noReturn : table.Lacks '\r'
  plain : table.classes.All (fun _ entry => entry.PlainMapped) []

instance (table : Table) : Decidable table.Writable :=
  decidable_of_iff
    (table.Lacks '\t' ∧ table.Lacks '\n' ∧ table.Lacks '\r'
      ∧ table.classes.All (fun _ entry => entry.PlainMapped) [])
    ⟨fun parts => ⟨parts.1, parts.2.1, parts.2.2.1, parts.2.2.2⟩,
      fun writable => ⟨writable.noTab, writable.noNewline, writable.noReturn, writable.plain⟩⟩

/-- The mapped name of a field stands in the entry of its class. -/
theorem fieldName_eq (table : Table) (owner : ClassName) (signature : FieldSignature) :
    table.fieldName owner signature
      = (((table.entryOf owner).field? signature).map FieldMapping.mapped).getD signature.name := by
  rw [fieldName, table.bind_find?_eq_entryOf owner rfl]

/-- The mapped name of a method stands in the entry of its class. -/
theorem methodName_eq (table : Table) (owner : ClassName) (signature : MethodSignature) :
    table.methodName owner signature
      = (((table.entryOf owner).method? signature).map MethodMapping.mapped).getD signature.name := by
  rw [methodName, method?, table.bind_find?_eq_entryOf owner rfl]

end Table

namespace Tiny

section Alike

variable {table other : Table} (alike : ∀ name, WrittenAlike (table.entryOf name) (other.entryOf name))

include alike

/-- If the same is written of all entries, all mapped names are the same. -/
theorem sameRenames_of_alike (sound : table.Sound) (otherSound : other.Sound)
    (namespaces : table.namespaces = other.namespaces) : table.SameRenames other where
  namespaces := namespaces
  classes := Table.mapClass_congr fun name => (alike name).mapped
  methods owner signature := by
    rw [Table.methodName_eq, Table.methodName_eq]
    exact (alike owner).methodName (sound.soundAt_entryOf owner).members
      (otherSound.soundAt_entryOf owner).members signature
  fields owner name type := by
    rw [Table.fieldName_eq, Table.fieldName_eq]
    exact (alike owner).fieldName (sound.soundAt_entryOf owner).members
      (otherSound.soundAt_entryOf owner).members rfl

/-- If the same is written of all entries, there is the same to tell about a class that has an entry. -/
theorem Tells.of_alike {block : Block} (tells : Tells table block)
    (present : (other.find? block.name).isSome) : Tells other block := by
  obtain ⟨mapped, ⟨entry, found, fields, methods⟩, told⟩ := tells
  obtain ⟨twin, twinFound⟩ := Option.isSome_iff_exists.1 present
  have same := alike block.name
  rw [Table.entryOf_of_find? found, Table.entryOf_of_find? twinFound] at same
  refine ⟨?_, ⟨twin, twinFound, fields.trans same.fields, methods.trans same.methods⟩, told⟩
  rw [← Table.mapClass_congr fun name => (alike name).mapped]
  exact mapped

end Alike

/-- A class that keeps its name keeps its key. -/
theorem storedPart_self (name : ClassName) : storedPart name name = name.key := by
  unfold storedPart ClassName.lastPart ClassName.key ClassName.isInner
  cases last : name.nesting.inner.getLast? with
  | none => simp [List.getLast?_eq_none_iff.1 last]
  | some simple =>
      have nested : name.nesting.inner ≠ [] := by
        rintro isTop
        simp [isTop] at last
      simp [nested]

/-- The table that is read from the blocks about a table. -/
def reread (table : Table) (blocks : List Block) : Table :=
  (blocks.map Block.seen).foldl RowBlock.apply (.empty table.namespaces)

section Written

variable {table : Table} (sound : table.Sound) (writable : table.Writable) {blocks : List Block}
  (listing : Listing table blocks)

include listing

/-- Classes that are told about are read. -/
theorem isSome_find?_reread_of_tells {block : Block} (tells : Tells table block) :
    ((reread table blocks).find? block.name).isSome := by
  refine (isSome_find?_foldl_apply _ _ _).2 (.inr ⟨block.seen, ?_, List.prefix_rfl⟩)
  exact List.mem_map_of_mem ((listing.mem block).2 tells)

/-- Only classes that are told about, and the classes around them, are added. -/
theorem isSome_find?_of_reread {name : ClassName} (found : ((reread table blocks).find? name).isSome) :
    (table.find? name).isSome := by
  rcases (isSome_find?_foldl_apply _ _ _).1 found with absurd | ⟨_, member, more, path⟩
  · cases absurd
  · obtain ⟨block, isBlock, rfl⟩ := List.mem_map.1 member
    obtain ⟨entry, blockFound, _⟩ := ((listing.mem block).1 isBlock).members
    have inside : (table.classes.entryAt? (name.path ++ more)).isSome := by
      rw [path]
      exact Option.isSome_of_eq_some blockFound
    exact ClassForest.isSome_entryAt?_of_append name.path_ne_nil inside

include sound writable

/-- The blocks of a writable table are read without failure. -/
theorem accepted_of_writable : ∀ block ∈ blocks, block.seen.Accepted := by
  intro block member
  have tells := (listing.mem block).1 member
  obtain ⟨entry, found, _⟩ := tells.members
  have noReturn := lacks_of_tells tells sound writable.noReturn (by decide) _ List.mem_cons_self
    block.mapped.text (by simp [classRow])
  have stored := sound.storedPart_mapClass writable.plain found tells.mapped
  refine .inr ⟨block.mapped, (withoutReturn_of_not_mem noReturn).symm, fun nested => ?_⟩
  have isNested : block.name.isInner = true := nested
  have plain : entry.PlainMapped := writable.plain.entryAt? found
  rw [storedPart, if_pos isNested] at stored
  rwa [ClassEntry.PlainMapped, sound.name_of_find? found, if_pos isNested, ← stored] at plain

/-- The text of a writable table is read as what its blocks make. -/
theorem readText_reread :
    readText (String.join (headerLine table.namespaces :: blocks.flatMap Block.lines))
      = .ok (reread table blocks) := by
  refine (readText_written sound writable.noTab writable.noNewline listing).2
    ⟨table.namespaces, rfl, ?_, accepted_of_writable sound writable listing, rfl⟩
  exact (withoutReturn_of_not_mem writable.noReturn.deobfuscated).symm

/-- The same is written of what is read as of what was written: an entry that is not told about keeps its
name and has no renamed members. -/
theorem writtenAlike_reread (name : ClassName) :
    WrittenAlike (table.entryOf name) ((reread table blocks).entryOf name) := by
  have sameNames : (blocks.map Block.seen).map RowBlock.name = blocks.map Block.name := by
    rw [List.map_map]
    rfl
  by_cases told : name ∈ blocks.map Block.name
  · obtain ⟨block, member, rfl⟩ := List.mem_map.1 told
    have tells := (listing.mem block).1 member
    have distinct : ((blocks.map Block.seen).map RowBlock.name).Nodup := by
      rw [sameNames]
      exact listing.sorted.imp fun less same => absurd (same ▸ less) (lt_irrefl _)
    have filled : (reread table blocks).entryOf block.name = block.filled :=
      (entryOf_foldl_apply _ distinct (List.mem_map_of_mem member)).trans
        (fill_seen_of_tells sound tells writable.noReturn)
    rw [filled]
    exact writtenAlike_filled sound tells writable.plain
  · have kept : (reread table blocks).entryOf name = .fresh name name.key :=
      entryOf_foldl_apply_of_not_mem _ _ (sameNames ▸ told)
    rw [kept]
    cases found : table.find? name with
    | none =>
        rw [Table.entryOf, found]
        exact ⟨rfl, rfl, rfl⟩
    | some entry =>
        obtain ⟨mapped, maps⟩ := sound.exists_mapClass name
        let block : Block := ⟨name, mapped, writtenFields entry, writtenMethods entry⟩
        have silent : mapped = name ∧ writtenFields entry = [] ∧ writtenMethods entry = [] := by
          by_contra isTold
          have tells : Tells table block := ⟨maps, ⟨entry, found, rfl, rfl⟩, isTold⟩
          exact told (List.mem_map_of_mem ((listing.mem block).2 tells))
        have stored := sound.storedPart_mapClass writable.plain found maps
        rw [silent.1, storedPart_self] at stored
        obtain ⟨noFields, noMethods⟩ := written_fresh name name.key
        rw [Table.entryOf_of_find? found]
        exact ⟨stored.symm, silent.2.1.trans noFields.symm, silent.2.2.trans noMethods.symm⟩

/-- There is the same to tell about what is read as about what was written. -/
theorem tells_reread (block : Block) : Tells table block ↔ Tells (reread table blocks) block := by
  have alike := writtenAlike_reread sound writable listing
  constructor
  · intro tells
    exact Tells.of_alike alike tells (isSome_find?_reread_of_tells listing tells)
  · intro tells
    obtain ⟨entry, found, _⟩ := tells.members
    exact Tells.of_alike (fun name => (alike name).symm) tells
      (isSome_find?_of_reread listing (Option.isSome_of_eq_some found))

end Written

/-- A table is written and read again with the same namespaces and the same mapped names, and what is
read is written as the same text. -/
theorem readText_write_of_reachable {table : Table} (reachable : table.Reachable)
    (writable : table.Writable) :
    ∃ text read, write table = .ok text ∧ readText text = .ok read ∧ table.SameRenames read
      ∧ write read = .ok text := by
  have sound := reachable.sound
  obtain ⟨blocks, listing, writes⟩ := exists_listing sound
  have reads := readText_reread sound writable listing
  have readSound : (reread table blocks).Sound := sound_of_read reads
  have namespaces : (reread table blocks).namespaces = table.namespaces := namespaces_foldl_apply _ _
  refine ⟨_, reread table blocks, writes, reads, ?_, ?_⟩
  · exact sameRenames_of_alike (writtenAlike_reread sound writable listing) sound readSound namespaces.symm
  · obtain ⟨others, otherListing, writesRead⟩ := exists_listing readSound
    have sameBlocks := listing.eq_of_tells otherListing (tells_reread sound writable listing)
    rw [writesRead, ← sameBlocks, namespaces]

/-- The class around `w/a$b` keeps its name, and the fields of `w/c` keep theirs. -/
theorem readText_write_renamed :
    ∃ (nested : ClassName) (table : Table), nested.text = "w/a$b" ∧ table.Reachable ∧ table.Writable
      ∧ (table.find? nested).map ClassEntry.mapped = some "Inner"
      ∧ ∃ text read, write table = .ok text ∧ readText text = .ok read ∧ table.SameRenames read
        ∧ write read = .ok text := by
  let nested : ClassName := ⟨"w/a$b", by decide +kernel⟩
  let other : ClassName := ⟨"w/c", by decide +kernel⟩
  let operations : List Operation :=
    [.createClass nested, .renameClass nested "Inner",
      .mapMethod nested ⟨⟨"go", by decide +kernel⟩, ⟨[], none⟩⟩ ⟨"march", by decide +kernel⟩,
      .touchField other ⟨⟨"pace", by decide +kernel⟩, some (.ofClass nested)⟩]
  let table := operations.foldl Operation.apply (.empty .standard)
  have reachable : table.Reachable := (Table.Reachable.empty .standard).run operations
  have writable : table.Writable := by decide +kernel
  exact ⟨nested, table, rfl, reachable, writable, by decide +kernel,
    readText_write_of_reachable reachable writable⟩

end Tiny

end MixinLink
